import Mathlib.Data.List.Infix
import Offside.Proofs.Endings.HaskellScans
import Offside.Proofs.Endings.PythonScans
import Offside.Proofs.Layout.Ahead
import Offside.Proofs.Lexical.Spellings

/-!
Python texts with the other line ends. The two readers make the same moves: a line break after a token
or a comment, of a blank line, inside brackets or after a backslash is passed over in one move however
it is written. So they open and close the same blocks and hand out the same tokens.
-/

namespace Offside.Python

set_option autoImplicit false

open Lexical Text

namespace Lexer

/-- Moves that hand out the same kind of token, or both none, and lead to states that differ in
their cursors alone, which are twins. -/
structure MovesAlike (left right : Move Lexer) : Prop where
  item : right.item.map Lexed.kind = left.item.map Lexed.kind
  state : right.state = { left.state with cursor := right.state.cursor }
  twin : left.state.cursor.Twin right.state.cursor

theorem MovesAlike.pass {left right : Move Lexer} (alike : MovesAlike left right)
    (silent : left.item = none) :
    ∃ after, right = .pass { left.state with cursor := after } ∧
      left.state.cursor.Twin after := by
  obtain ⟨item, state, twin⟩ := alike
  rw [silent] at item
  refine ⟨right.state.cursor, ?_, twin⟩
  rw [← state, Move.pass, ← Option.map_eq_none_iff.1 item]

theorem MovesAlike.emit {left right : Move Lexer} (alike : MovesAlike left right) {item : Lexed}
    (handed : left.item = some item) :
    ∃ found after, right = .emit found { left.state with cursor := after } ∧
      found.kind = item.kind ∧ left.state.cursor.Twin after := by
  obtain ⟨same, state, twin⟩ := alike
  rw [handed] at same
  obtain ⟨found, handedOther, kind⟩ := Option.map_eq_some_iff.1 same
  refine ⟨found, right.state.cursor, ?_, kind, twin⟩
  rw [← state, Move.emit, ← handedOther]

theorem movesAlike_pass (lexer : Lexer) {other : Cursor} (twin : lexer.cursor.Twin other) :
    MovesAlike (.pass lexer) (.pass { lexer with cursor := other }) where
  item := rfl
  state := rfl
  twin := twin

theorem movesAlike_emit (lexer : Lexer) {other : Cursor} (twin : lexer.cursor.Twin other)
    {item found : Lexed} (kind : found.kind = item.kind) :
    MovesAlike (.emit item lexer) (.emit found { lexer with cursor := other }) where
  item := congrArg some kind
  state := rfl
  twin := twin

variable {lexer : Lexer} {other : Cursor}

theorem commentScan_crlf (text : List Char) : commentScan (crlf text) = commentScan text := by
  have same := firstLine_crlf text
  unfold firstLine at same
  unfold commentScan
  exact congrArg (fun line : List Char => ({ token := .comment, width := line.length } : Scan)) same

theorem commentItem_kind {cursor : Cursor} (twin : cursor.Twin other) (file : FileId) :
    (commentItem file other).kind = (commentItem file cursor).kind := by
  unfold commentItem
  rw [twin.ahead, commentScan_crlf]
  exact (Scan.Alike.refl _).kind _ _ _ _ _

theorem afterComment_twin {cursor : Cursor} (twin : cursor.Twin other) :
    (afterComment cursor).Twin (afterComment other) := by
  unfold afterComment
  rw [twin.ahead, commentScan_crlf]
  exact twin.skip_within (Nat.le_refl _)

theorem skip_lineBreak_twin {cursor : Cursor} (twin : cursor.Twin other)
    (feeds : '\r' ∉ cursor.ahead) :
    (cursor.skip (lineBreakWidth cursor.ahead)).Twin (other.skip (lineBreakWidth other.ahead)) := by
  rw [twin.ahead, lineBreakWidth_crlf feeds]
  exact twin.skip _

theorem feeds_skip {cursor : Cursor} (feeds : '\r' ∉ cursor.ahead) (count : Nat) :
    '\r' ∉ (cursor.skip count).ahead := by
  rw [Cursor.ahead_skip]
  exact fun member => feeds (List.mem_of_mem_drop member)

theorem moveAtLineStart_alike (twin : lexer.cursor.Twin other) (feeds : '\r' ∉ lexer.cursor.ahead)
    (file : FileId) :
    MovesAlike (lexer.moveAtLineStart file)
      (({ lexer with cursor := other } : Lexer).moveAtLineStart file) := by
  have skipped := twin.skipWhile (show StaysInLine Cursor.isIndentation by decide)
  have feedsLeft : '\r' ∉ (lexer.cursor.skipWhile Cursor.isIndentation).ahead := feeds_skip feeds _
  simp only [moveAtLineStart]
  generalize lexer.cursor.skipWhile Cursor.isIndentation = cursor at skipped feedsLeft ⊢
  generalize other.skipWhile Cursor.isIndentation = after at skipped ⊢
  have ended := skipped.isEmpty_ahead
  have breaks : 0 < lineBreakWidth after.ahead ↔ 0 < lineBreakWidth cursor.ahead := by
    rw [skipped.ahead]
    exact lineBreakWidth_crlf_pos_iff feedsLeft
  have comment := skipped.startsWith (show isInLine '#' = true by decide)
  simp only [ended, breaks, comment, skipped.indentation]
  split
  · exact movesAlike_pass _ skipped
  · split
    · exact movesAlike_pass _ (skip_lineBreak_twin skipped feedsLeft)
    · split
      · exact movesAlike_emit _
          (skip_lineBreak_twin (afterComment_twin skipped) (feeds_skip feedsLeft _))
          (commentItem_kind skipped file)
      · split
        · exact movesAlike_pass _ skipped
        · exact movesAlike_emit _ skipped rfl
        · exact movesAlike_emit _ skipped rfl
        · exact movesAlike_emit _ skipped rfl

theorem moveAtEnd_alike (lexer : Lexer) (twin : lexer.cursor.Twin other) (file : FileId) :
    MovesAlike (lexer.moveAtEnd file)
      (({ lexer with cursor := other } : Lexer).moveAtEnd file) := by
  unfold moveAtEnd
  cases lexer.blocks.widths with
  | nil => exact movesAlike_emit _ twin rfl
  | cons width outer =>
    exact movesAlike_emit { lexer with blocks := { lexer.blocks with widths := outer } } twin rfl

theorem moveAtLineFeed_alike (lexer : Lexer)
    (twin : lexer.cursor.advance.Twin other.advance) (file : FileId) :
    MovesAlike (lexer.moveAtLineFeed file)
      (({ lexer with cursor := other } : Lexer).moveAtLineFeed file) := by
  simp only [moveAtLineFeed]
  split
  · exact movesAlike_pass _ twin
  · split
    · exact movesAlike_emit _ twin rfl
    · exact movesAlike_pass _ twin

theorem moveAtToken_alike (lexer : Lexer) (twin : lexer.cursor.Twin other)
    (feeds : '\r' ∉ lexer.cursor.ahead)
    (remains : firstLine lexer.cursor.ahead ≠ [])
    (whole : ¬IsSpliced (scan lexer.cursor.ahead).token
      (lexer.cursor.ahead.take (scan lexer.cursor.ahead).width)) (file : FileId) :
    MovesAlike (lexer.moveAtToken file)
      (({ lexer with cursor := other } : Lexer).moveAtToken file) := by
  have scanned := scan_twin remains feeds whole
  have moved := twin.skip ((scan lexer.cursor.ahead).width + (scan lexer.cursor.ahead).absorbed)
  rw [← scanned.reach, ← twin.ahead] at moved
  rw [← twin.ahead] at scanned
  simp only [moveAtToken, scanned.absorbs, scanned.token]
  exact movesAlike_emit _ moved (scanned.toAlike.kind _ _ _ _ _)

/-- After the blanks of a line the cursors are twins, or both stand at a line feed and are twins
behind it. -/
theorem skipBlanks_twin {cursor : Cursor} (twin : cursor.Twin other) :
    ((cursor.skipWhile isBlankInLine).startsWith '\n' = false ∧
        (cursor.skipWhile isBlankInLine).Twin (other.skipWhile isBlankInLine)) ∨
      (cursor.skipWhile isBlankInLine).startsWith '\n' = true ∧
        (other.skipWhile isBlankInLine).startsWith '\n' = true ∧
          (cursor.skipWhile isBlankInLine).advance.Twin
            (other.skipWhile isBlankInLine).advance := by
  obtain ⟨base, reached, skipped⟩ := twin.skipWhile_return
    (show isBlankInLine '\n' = false by decide) (show isBlankInLine '\r' = true by decide)
  rw [skipped]
  cases feed : (cursor.skipWhile isBlankInLine).startsWith '\n' with
  | false =>
    rw [if_neg Bool.false_ne_true]
    exact .inl ⟨rfl, reached⟩
  | true =>
    obtain ⟨rest, ahead⟩ := Cursor.ahead_of_lineFeed feed
    rw [if_pos rfl]
    refine .inr ⟨rfl, ?_, reached.advance_feed ahead⟩
    unfold Cursor.startsWith
    rw [Cursor.ahead_advance, reached.ahead_of_feed ahead]
    rfl

theorem continuationWidth_crlf {text : List Char} (feeds : '\r' ∉ text) :
    continuationWidth (crlf text) = (crlf (text.take (continuationWidth text))).length := by
  cases text with
  | nil => rfl
  | cons character rest =>
    simp only [List.mem_cons, not_or] at feeds
    by_cases escape : character = '\\'
    · rw [escape, crlf_cons (by decide)]
      simp only [continuationWidth]
      have breaks := lineBreakWidth_crlf_pos_iff feeds.2
      by_cases breaking : lineBreakWidth rest = 0
      · rw [if_pos (by omega), if_pos breaking]
        rfl
      · rw [if_neg (by omega), if_neg breaking, lineBreakWidth_crlf feeds.2, Nat.add_comm 1,
          Nat.add_comm 1, List.take_succ_cons, crlf_cons (by decide)]
        rfl
    · have none : ∀ rest, continuationWidth (character :: rest) = 0 := by
        intro rest
        simp [continuationWidth, escape]
      by_cases lineFeed : character = '\n'
      · rw [lineFeed]
        rfl
      · rw [crlf_cons lineFeed, none, none]
        rfl

theorem continuationWidth_crlf_pos_iff {text : List Char} (feeds : '\r' ∉ text) :
    0 < continuationWidth (crlf text) ↔ 0 < continuationWidth text := by
  rw [continuationWidth_crlf feeds]
  refine length_crlf_take_pos_iff ?_
  unfold continuationWidth
  split
  · rename_i rest
    have := lineBreakWidth_le_length rest
    split
    · exact Nat.zero_le _
    · rw [List.length_cons]
      omega
  · exact Nat.zero_le _

def IsWhole (source : List Char) (item : Lexed) : Prop :=
  ∀ text, item.span.slice? source = some text → ¬IsSpliced item.token text

variable {source : List Char}

theorem neither_of_lineFeed {cursor : Cursor} (feed : cursor.startsWith '\n' = true) :
    cursor.ahead.isEmpty = false ∧ cursor.startsWith '#' = false := by
  obtain ⟨rest, found⟩ := Cursor.ahead_of_lineFeed feed
  simp [Cursor.startsWith, found]

theorem moveInLine_alike (twin : lexer.cursor.Twin other) (stands : lexer.cursor.Stands source)
    (feeds : '\r' ∉ lexer.cursor.ahead) (file : FileId)
    (whole : ∀ item ∈ (lexer.moveInLine file).item, IsWhole source item) :
    MovesAlike (lexer.moveInLine file)
      (({ lexer with cursor := other } : Lexer).moveInLine file) := by
  have feedsLeft : '\r' ∉ (lexer.cursor.skipWhile isBlankInLine).ahead := feeds_skip feeds _
  have standsLeft := stands.skipWhile isBlankInLine
  have skipped := skipBlanks_twin twin
  simp only [moveInLine] at whole ⊢
  generalize lexer.cursor.skipWhile isBlankInLine = cursor at feedsLeft standsLeft skipped whole ⊢
  generalize other.skipWhile isBlankInLine = after at skipped ⊢
  rcases skipped with ⟨noFeed, skipped⟩ | ⟨feed, otherFeed, skipped⟩
  · have ended := skipped.isEmpty_ahead
    have comment := skipped.startsWith (show isInLine '#' = true by decide)
    have noFeedOther : after.startsWith '\n' = false := by
      unfold Cursor.startsWith
      rw [skipped.ahead]
      exact beq_false_of_ne (head?_crlf_ne cursor.ahead)
    have continued : 0 < continuationWidth after.ahead ↔ 0 < continuationWidth cursor.ahead := by
      rw [skipped.ahead]
      exact continuationWidth_crlf_pos_iff feedsLeft
    simp only [ended, comment, noFeed, noFeedOther, continued, Bool.false_eq_true,
      if_false] at whole ⊢
    by_cases atEnd : cursor.ahead.isEmpty = true
    · rw [if_pos atEnd, if_pos atEnd]
      exact moveAtEnd_alike { lexer with cursor } skipped file
    · simp only [if_neg atEnd] at whole ⊢
      split
      · exact movesAlike_emit { lexer with cursor := afterComment cursor }
          (afterComment_twin skipped) (commentItem_kind skipped file)
      · rename_i noComment
        simp only [if_neg noComment] at whole
        split
        · refine movesAlike_pass { lexer with cursor := cursor.skip _ } ?_
          rw [skipped.ahead, continuationWidth_crlf feedsLeft]
          exact skipped.skip _
        · rename_i noContinuation
          simp only [if_neg noContinuation] at whole
          refine moveAtToken_alike { lexer with cursor } skipped feedsLeft ?_ ?_ file
          · exact firstLine_ne_nil feedsLeft (by simpa using atEnd)
              (by simpa [Cursor.startsWith] using noFeed)
          · exact whole _ rfl _ (standsLeft.slice?_ahead file _)
  · simp only [neither_of_lineFeed feed, neither_of_lineFeed otherFeed, feed, otherFeed,
      Bool.false_eq_true, if_false, if_true]
    exact moveAtLineFeed_alike { lexer with cursor } skipped file

theorem move_alike (twin : lexer.cursor.Twin other) (stands : lexer.cursor.Stands source)
    (feeds : '\r' ∉ lexer.cursor.ahead) (file : FileId)
    (whole : ∀ item ∈ (lexer.move file).item, IsWhole source item) :
    MovesAlike (lexer.move file) (({ lexer with cursor := other } : Lexer).move file) := by
  unfold move at whole ⊢
  split
  · exact movesAlike_emit
      { lexer with blocks := { lexer.blocks with owed := lexer.blocks.owed - 1 } } twin rfl
  · rename_i settled
    rw [if_neg settled] at whole
    split
    · exact moveAtLineStart_alike twin feeds file
    · rename_i inLine
      rw [if_neg inLine] at whole
      exact moveInLine_alike twin stands feeds file whole

/-- Readers at twin cursors hand out the same tokens and problems to the end of the text. -/
theorem items_alike (noReturn : '\r' ∉ source) (file : FileId) (lexer : Lexer) (other : Cursor)
    (twin : lexer.cursor.Twin other) (stands : lexer.cursor.Stands source)
    (whole : ∀ item ∈ reader.items file lexer, IsWhole source item) :
    (reader.items file { lexer with cursor := other }).map Lexed.kind =
      (reader.items file lexer).map Lexed.kind := by
  have step : ∀ {lexer : Lexer} {other : Cursor}, lexer.cursor.Twin other →
      lexer.cursor.Stands source → (∀ item ∈ (lexer.move file).item, IsWhole source item) →
        MovesAlike (lexer.move file) (({ lexer with cursor := other } : Lexer).move file) :=
    fun twin stands whole => move_alike twin stands (stands.not_mem_ahead noReturn) file whole
  fun_induction Reader.items reader file lexer generalizing other with
  | case1 lexer silent lower induction =>
    have silent : (lexer.move file).item = none := silent
    obtain ⟨after, moved, twinAfter⟩ := (step twin stands (by simp [silent])).pass silent
    rw [Reader.items_of_pass moved]
    exact induction _ twinAfter (move_recounts stands file).stands whole
  | case2 lexer item handed final =>
    have handed : (lexer.move file).item = some item := handed
    obtain ⟨found, after, moved, kind, -⟩ :=
      (step twin stands (by simpa [handed] using whole)).emit handed
    rw [Reader.items_of_final moved (by rw [Lexed.isFinal_of_kind kind, final])]
    simp only [List.map_cons, List.map_nil, kind]
  | case3 lexer item handed goesOn lower induction =>
    have handed : (lexer.move file).item = some item := handed
    rw [List.forall_mem_cons] at whole
    obtain ⟨found, after, moved, kind, twinAfter⟩ :=
      (step twin stands (by simpa [handed] using whole.1)).emit handed
    rw [Reader.items_of_emit moved (by rw [Lexed.isFinal_of_kind kind]; simpa using goesOn)]
    simp only [List.map_cons, kind]
    exact congrArg _ (induction _ twinAfter (move_recounts stands file).stands whole.2)

end Lexer

/-- The tokens and problems of a text are those of the text with the other line ends. -/
theorem stream_kinds {source : List Char} (noReturn : '\r' ∉ source) (file : FileId)
    (whole : ∀ item ∈ (reader.stream file source).items, Lexer.IsWhole source item) :
    (reader.stream file (crlf source)).items.map Lexed.kind =
      (reader.stream file source).items.map Lexed.kind :=
  Lexer.items_alike noReturn file (Lexer.start source) _ (Cursor.twin_ofText source)
    (Cursor.stands_ofText source) whole

end Offside.Python

/-!
Haskell texts with the other line ends. Reading goes from one token to the next, and at each the two
readers stand at twins. So the same tokens are written, at the same columns and on lines of their own
alike, and this is all that layout looks at.
-/

namespace Offside.Haskell

set_option autoImplicit false

open Lexical Text

def Written.offside (written : Written) : Token × Nat × Bool :=
  (written.token, written.column, written.firstOnLine)

namespace Layout

theorem step_offside {written other : Written} (same : other.offside = written.offside)
    (layout : Layout) : layout.step other = layout.step written := by
  obtain ⟨token, span, column, firstOnLine⟩ := written
  obtain ⟨_, otherSpan, _, _⟩ := other
  simp only [Written.offside, Prod.mk.injEq] at same
  obtain ⟨rfl, rfl, rfl⟩ := same
  rfl

theorem spread_offside {tokens others : List Written}
    (same : others.map Written.offside = tokens.map Written.offside) (layout : Layout) :
    (layout.spread others).map Prod.fst = (layout.spread tokens).map Prod.fst := by
  induction tokens generalizing others layout with
  | nil =>
    rw [List.map_eq_nil_iff.1 same]
  | cons written later induction =>
    obtain ⟨other, further, rfl, first, behind⟩ := List.map_eq_cons_iff.1 same
    have token : other.token = written.token := congrArg Prod.fst first
    by_cases comment : written.token = .comment
    · rw [spread_of_comment (token.trans comment), spread_of_comment comment, List.map_cons,
        List.map_cons, token, induction behind]
    · rw [spread_of_written (by rwa [token]), spread_of_written comment, step_offside first]
      simp only [List.map_append, List.map_cons, List.map_map, token, induction behind]
      rfl

end Layout

namespace Lexer

structure Abreast (left right : Lexer) : Prop where
  place : left.place.Twin right.place
  lastLine : right.lastLine = left.lastLine
  properEnd : right.properEnd = left.properEnd

variable {source : List Char} {left right : Lexer}

theorem abreast_start (source : List Char) : Abreast (start source) (start (crlf source)) where
  place := (Cursor.twin_ofText source).skipWhile_breaks (by decide) (by decide)
  lastLine := rfl
  properEnd := rfl

def IsWhole (source : List Char) (item : Lexed) : Prop :=
  ∀ text, item.span.slice? source = some text → ¬IsSpliced item.token text

theorem Abreast.finds (abreast : left.Abreast right) (noReturn : '\r' ∉ source)
    (stands : left.cursor.Stands source) {file : FileId}
    (whole : IsWhole source (left.nextItem file)) :
    FindsNear left.place right.place left.nextScan right.nextScan := by
  have placed : left.place.Stands source := stands.skipWhile _
  have finds := scan_near abreast.place (placed.not_mem_ahead noReturn) left.leads_place
    (left.properEnd == some left.place.position) (whole _ (placed.slice?_ahead file _))
  unfold nextScan
  rw [abreast.properEnd, abreast.place.position]
  exact finds

theorem Abreast.pastNext (abreast : left.Abreast right)
    (finds : FindsNear left.place right.place left.nextScan right.nextScan) :
    left.pastNext.Abreast right.pastNext where
  place := by
    change Haskell.Near left.pastNext.cursor right.pastNext.cursor
    rw [cursor_pastNext, cursor_pastNext]
    exact finds.near
  lastLine := by
    unfold Lexer.pastNext
    simp only [finds.alike.token, abreast.place.position]
    split
    · exact abreast.lastLine
    · rfl
  properEnd := by
    unfold Lexer.pastNext
    simp only [finds.alike.token]
    split
    · exact abreast.properEnd
    · by_cases proper : left.nextScan.token = .properIdentifier
      · simp only [proper, if_true, finds.place proper]
      · simp only [proper, if_false]

theorem Abreast.offside (abreast : left.Abreast right)
    (finds : FindsNear left.place right.place left.nextScan right.nextScan) (file : FileId) :
    (right.nextWritten file).offside = (left.nextWritten file).offside := by
  simp only [Written.offside, nextWritten, finds.alike.token, abreast.place.indentation,
    abreast.place.position, abreast.lastLine]

theorem scanned_of_ended {lexer : Lexer} (ended : lexer.nextScan.token = .endOfInput)
    (file : FileId) : lexer.scanned file = [lexer.nextWritten file] := by
  rw [scanned, dif_pos ended]

theorem scanned_of_inner {lexer : Lexer} (inner : lexer.nextScan.token ≠ .endOfInput)
    (file : FileId) :
    lexer.scanned file = lexer.nextWritten file :: lexer.pastNext.scanned file := by
  rw [scanned, dif_neg inner]

theorem readings_of_ended {lexer : Lexer} (ended : lexer.nextScan.token = .endOfInput)
    (file : FileId) : lexer.readings file = [lexer.nextItem file] := by
  rw [readings, dif_pos ended]

theorem readings_of_inner {lexer : Lexer} (inner : lexer.nextScan.token ≠ .endOfInput)
    (file : FileId) :
    lexer.readings file = lexer.nextItem file :: lexer.pastNext.readings file := by
  rw [readings, dif_neg inner]

/-- The readers find the same tokens and report the same problems. -/
theorem Abreast.reads (abreast : left.Abreast right) (noReturn : '\r' ∉ source)
    (stands : left.cursor.Stands source) (file : FileId)
    (whole : ∀ item ∈ left.readings file, IsWhole source item) :
    (right.scanned file).map Written.offside = (left.scanned file).map Written.offside ∧
      (right.readings file).map Lexed.kind = (left.readings file).map Lexed.kind := by
  fun_induction Lexer.readings file left generalizing right with
  | case1 left ended =>
    have finds := abreast.finds noReturn stands (whole _ (List.mem_singleton_self _))
    have endedOther := finds.alike.token.trans ended
    rw [scanned_of_ended ended, scanned_of_ended endedOther, readings_of_ended endedOther]
    exact ⟨congrArg ([·]) (abreast.offside finds file),
      congrArg ([·]) (finds.alike.kind file _ _ _ _)⟩
  | case2 left inner shorter induction =>
    rw [List.forall_mem_cons] at whole
    have finds := abreast.finds noReturn stands whole.1
    have innerOther : right.nextScan.token ≠ .endOfInput := by rwa [finds.alike.token]
    have standsPast : left.pastNext.cursor.Stands source := by
      rw [cursor_pastNext]
      exact (stands.skipWhile _).skip _
    obtain ⟨behind, reported⟩ := induction (abreast.pastNext finds) standsPast whole.2
    rw [scanned_of_inner inner, scanned_of_inner innerOther, readings_of_inner innerOther]
    exact ⟨congrArg₂ List.cons (abreast.offside finds file) behind,
      congrArg₂ List.cons (finds.alike.kind file _ _ _ _) reported⟩

end Lexer

section

variable {source : List Char} {file : FileId}

/-- A spliced token would be seen among the tokens handed out. -/
theorem whole_readings
    (whole : ∀ item ∈ (reader.stream file source).items, Lexer.IsWhole source item) :
    ∀ reading ∈ sourceReadings file source, Lexer.IsWhole source reading := by
  intro reading read text slice spliced
  have accounts := stream_accounts file source
  have recorded : Lexeme.Category.ofToken? reading.token ≠ none := by
    rcases spliced.1 with kind | kind <;> rw [kind] <;> decide
  rcases accounts.readings reading read with ⟨_, copies⟩ | plain
  · obtain ⟨item, handed, same⟩ := List.mem_map.1
      ((accounts.wide reading.located copies.wide).2 (List.mem_map_of_mem read))
    obtain ⟨token, span⟩ := Prod.mk.inj same
    rw [← span] at slice
    rw [← token] at spliced
    exact whole item handed text slice spliced
  · exact recorded plain.token

/-- The tokens and problems of a text are those of the text with the other line ends. -/
theorem stream_kinds (noReturn : '\r' ∉ source)
    (whole : ∀ item ∈ (reader.stream file source).items, Lexer.IsWhole source item) :
    (reader.stream file (crlf source)).items.map Lexed.token =
        (reader.stream file source).items.map Lexed.token ∧
      (reportsOf (reader.stream file (crlf source)).items).map Diagnostic.problem =
        (reportsOf (reader.stream file source).items).map Diagnostic.problem := by
  obtain ⟨scanned, read⟩ := (Lexer.abreast_start source).reads noReturn
    (Cursor.stands_ofText source) file (whole_readings whole)
  constructor
  · have tokens : ∀ text : List Char, (reader.stream file text).items.map Lexed.token =
        (Layout.spread {} (scannedTokens file text)).map Prod.fst := by
      intro text
      rw [← stream_located, List.map_map]
      rfl
    rw [tokens, tokens]
    exact Layout.spread_offside scanned {}
  · rw [stream_reports, stream_reports, problems_reportsOf, problems_reportsOf]
    exact congrArg (List.flatMap Prod.snd) read

end

end Offside.Haskell

/-!
Line ends do not matter, except in a literal that goes on in the next line by a backslash. In all other
texts, in either language, a carriage return before every line feed changes neither the kinds of the
tokens nor the problems reported, in whatever context the text is read.
-/

namespace Offside

set_option autoImplicit false

open Lexical Text

/-- A literal of one line in which a backslash cancels a line feed. A string between triple quotes has
many lines and is none. -/
def Language.IsSpliced (language : Language) (token : Token) (text : List Char) : Prop :=
  match language with
  | .python => Python.IsSpliced token text
  | .haskell => Haskell.IsSpliced token text

instance (token : Token) (text : List Char) : Decidable (Python.IsSpliced token text) :=
  inferInstanceAs (Decidable (_ ∧ _ ∧ _))

instance (token : Token) (text : List Char) : Decidable (Haskell.IsSpliced token text) :=
  inferInstanceAs (Decidable ((_ ∨ _) ∧ _))

instance (language : Language) (token : Token) (text : List Char) :
    Decidable (language.IsSpliced token text) :=
  match language with
  | .python => inferInstanceAs (Decidable (Python.IsSpliced token text))
  | .haskell => inferInstanceAs (Decidable (Haskell.IsSpliced token text))

theorem Language.IsSpliced.shown {language : Language} {token : Token} {text : List Char}
    (spliced : language.IsSpliced token text) : token ≠ .comment := by
  rintro rfl
  cases language with
  | python => cases spliced.1
  | haskell => rcases spliced.1 with kind | kind <;> cases kind

namespace Context

theorem kinds_lex (context : Context) (language : Language) (source : List Char) :
    (context.lex language source).1.map Prod.fst =
      (((TokenSource.ofText language source).stream context.file).items.map Lexed.token).filter
        fun token => context.keepComments || token != .comment := by
  simp only [lex, List.map_map, List.filter_map]
  rfl

theorem problems_lex (context : Context) (language : Language) (source : List Char) :
    (context.lex language source).2.diagnostics.toList.map Diagnostic.problem =
      context.diagnostics.toList.map Diagnostic.problem ++
        (reportsOf ((TokenSource.ofText language source).stream context.file).items).map
          Diagnostic.problem := by
  simp [lex, diagnostics_absorbAll]

/-- A carriage return before every line feed changes neither the kinds of the tokens of a text nor
the problems reported. -/
def IgnoresLineEnds (context : Context) (language : Language) (source : List Char) : Prop :=
  (context.lex language (crlf source)).1.map Prod.fst =
      (context.lex language source).1.map Prod.fst ∧
    (context.lex language (crlf source)).2.diagnostics.toList.map Diagnostic.problem =
      (context.lex language source).2.diagnostics.toList.map Diagnostic.problem

/-- No literal that the text is read as is spliced. -/
def LexesWhole (context : Context) (language : Language) (source : List Char) : Prop :=
  ∀ found ∈ (context.lex language source).1, ∀ text ∈ found.2.slice? source,
    ¬language.IsSpliced found.1 text

variable {context : Context} {language : Language} {source : List Char}

/-- A spliced literal is no comment, so it would be shown. -/
theorem LexesWhole.items (whole : context.LexesWhole language source) :
    ∀ item ∈ ((TokenSource.ofText language source).stream context.file).items, ∀ text,
      item.span.slice? source = some text → ¬language.IsSpliced item.token text := by
  intro item handed text slice spliced
  have shown : (context.keepComments || item.token != .comment) = true := by
    simp [spliced.shown]
  exact whole item.located (mem_lex.2 ⟨List.mem_map_of_mem handed, shown⟩) text slice spliced

theorem lex_ignores_line_ends (noReturn : '\r' ∉ source)
    (whole : context.LexesWhole language source) : context.IgnoresLineEnds language source := by
  unfold IgnoresLineEnds
  rw [kinds_lex, kinds_lex, problems_lex, problems_lex]
  cases language with
  | python =>
    have kinds := Python.stream_kinds noReturn context.file whole.items
    have tokens := congrArg (List.map Prod.fst) kinds
    rw [List.map_map, List.map_map] at tokens
    refine ⟨congrArg _ tokens, congrArg _ ?_⟩
    rw [problems_reportsOf, problems_reportsOf]
    exact congrArg (List.flatMap Prod.snd) kinds
  | haskell =>
    obtain ⟨tokens, problems⟩ := Haskell.stream_kinds noReturn whole.items
    exact ⟨congrArg _ tokens, congrArg _ problems⟩

instance (context : Context) (language : Language) (source : List Char) :
    Decidable (context.LexesWhole language source) :=
  inferInstanceAs (Decidable (∀ found ∈ (context.lex language source).1,
    ∀ text ∈ found.2.slice? source, ¬language.IsSpliced found.1 text))

def pythonLines : List Char :=
  "if a: # b\n\n  '''c\\\nd\n'''\n  f(1,\n    0x)\\\n  + 'g\nh".toList

def haskellLines : List Char :=
  "f = do -- a\n  b \x7b- c\n -\x7d 'd'\n  \"e\n  '\n where\n  g = M\n .+ 0x".toList

theorem lines_ignore_line_ends :
    (('\r' ∉ pythonLines ∧ ({} : Context).LexesWhole .python pythonLines) ∧
      ({} : Context).IgnoresLineEnds .python pythonLines) ∧
    ('\r' ∉ haskellLines ∧ ({} : Context).LexesWhole .haskell haskellLines) ∧
      ({} : Context).IgnoresLineEnds .haskell haskellLines := by
  have python : '\r' ∉ pythonLines ∧ ({} : Context).LexesWhole .python pythonLines := by
    decide +kernel
  have haskell : '\r' ∉ haskellLines ∧ ({} : Context).LexesWhole .haskell haskellLines := by
    decide +kernel
  exact ⟨⟨python, lex_ignores_line_ends python.1 python.2⟩,
    haskell, lex_ignores_line_ends haskell.1 haskell.2⟩

/-- The backslash takes the carriage return alone, so the line feed behind it cuts the literal off. -/
theorem spliced_literals_see_line_ends :
    (¬∀ source : List Char, '\r' ∉ source → ({} : Context).IgnoresLineEnds .python source) ∧
      ¬∀ source : List Char, '\r' ∉ source → ({} : Context).IgnoresLineEnds .haskell source := by
  constructor
  · intro ignores
    have same := ignores "x = 'a\\\nb'".toList (by decide)
    revert same
    unfold IgnoresLineEnds
    decide +kernel
  · intro ignores
    have same := ignores "x = \"a\\\nb\"".toList (by decide)
    revert same
    unfold IgnoresLineEnds
    decide +kernel

end Context

end Offside
