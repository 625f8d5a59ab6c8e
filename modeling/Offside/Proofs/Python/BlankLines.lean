import Offside.Proofs.Python.FurtherDown
import Offside.Proofs.Python.LogicalLines
import Offside.Proofs.Python.WholeLines

/-!
Blank lines and lines with a comment alone. Such a line at the start of a logical line changes nothing but
the lines of what stands behind it: what stands in front of it is read alike with and without it, the lexer
passes over it in one move and stands behind it as it stood before it, one line further down.
-/

namespace Offside

set_option autoImplicit false

open Lexical Text

/-- A place from the edge on comes to stand one line further down. -/
def Position.pushed (place edge : Position) : Position := if edge ≤ place then place.down 1 else place

def Span.pushed (edge : Position) (span : Span) : Span :=
  if edge ≤ span.start then span.down 1 else span

def Diagnostic.pushed (edge : Position) (report : Diagnostic) : Diagnostic :=
  { report with span := report.span.pushed edge }

namespace Lexical

def Entry.pushed (edge : Position) (entry : Entry) : Entry :=
  { entry with place := entry.place.pushed edge }

def Lexed.pushed (edge : Position) (item : Lexed) : Lexed where
  token := item.token
  span := item.span.pushed edge
  reports := item.reports.map (Diagnostic.pushed edge)
  entries := item.entries.map (Entry.pushed edge)

end Lexical

namespace Python

namespace Lexer

variable {lexer : Lexer} {file : FileId}

theorem StartsAt.pushed_of_lt {edge place : Position} {item : Lexed} (starts : StartsAt place item)
    (inFront : place < edge) : item.pushed edge = item := by
  have above : ¬edge ≤ place := fun behind =>
    Position.lt_irrefl _ (Position.lt_of_le_of_lt behind inFront)
  obtain ⟨token, span, reports, entries⟩ := item
  obtain ⟨rfl, allReports, allEntries⟩ := starts
  simp only at above allReports allEntries
  have same : reports.map (Diagnostic.pushed edge) = reports := by
    refine List.map_congr_left (fun report member => ?_) |>.trans (List.map_id _)
    rw [Diagnostic.pushed, Span.pushed, allReports report member, if_neg above]
    rfl
  have others : entries.map (Entry.pushed edge) = entries := by
    refine List.map_congr_left (fun entry member => ?_) |>.trans (List.map_id _)
    rw [Entry.pushed, Position.pushed, allEntries entry member, if_neg above, ← allEntries entry member]
    rfl
  rw [Lexed.pushed, Span.pushed, if_neg above, same, others]

theorem StartsAt.pushed_of_le {edge place : Position} {item : Lexed} (starts : StartsAt place item)
    (behind : edge ≤ place) : item.pushed edge = item.down 1 := by
  obtain ⟨token, span, reports, entries⟩ := item
  obtain ⟨rfl, allReports, allEntries⟩ := starts
  simp only at behind allReports allEntries
  rw [Lexed.pushed, Lexed.down, Span.pushed, if_pos behind]
  refine congrArg₂ (Lexed.mk _ _) ?_ ?_
  · refine List.map_congr_left fun report member => ?_
    rw [Diagnostic.pushed, Span.pushed, allReports report member, if_pos behind]
  · refine List.map_congr_left fun entry member => ?_
    rw [Entry.pushed, Position.pushed, allEntries entry member, if_pos behind]

/-! The text in front of the line. -/

/-- At the start of a logical line no bracket is open and no closed block is owed. -/
structure Settled (lexer : Lexer) : Prop where
  owed : lexer.atLineStart = true → lexer.blocks.owed = 0
  depth : lexer.atLineStart = true → lexer.depth = 0

theorem move_settled (file : FileId) (settled : lexer.Settled) : (lexer.move file).state.Settled := by
  simp only [move]
  split
  · rename_i owed
    have inLine : lexer.atLineStart ≠ true := fun start => by
      rw [settled.owed start] at owed
      cases owed
    exact ⟨fun start => absurd start inLine, fun start => absurd start inLine⟩
  · rename_i none
    have none : lexer.blocks.owed = 0 := by omega
    split
    · rename_i start
      have closed := settled.depth start
      simp only [moveAtLineStart]
      split
      · exact ⟨by rintro ⟨⟩, by rintro ⟨⟩⟩
      · split
        · exact ⟨fun _ => none, fun _ => closed⟩
        · split
          · exact ⟨fun _ => none, fun _ => closed⟩
          · split <;> exact ⟨by rintro ⟨⟩, by rintro ⟨⟩⟩
    · rename_i inLine
      simp only [moveInLine]
      split
      · unfold moveAtEnd
        split <;> exact ⟨fun start => absurd start inLine, fun start => absurd start inLine⟩
      · split
        · exact ⟨fun start => absurd start inLine, fun start => absurd start inLine⟩
        · split
          · simp only [moveAtLineFeed]
            split
            · exact ⟨fun start => absurd start inLine, fun start => absurd start inLine⟩
            · rename_i closed
              have closed : lexer.depth = 0 := by omega
              split <;> exact ⟨fun _ => none, fun _ => closed⟩
          · split
            · exact ⟨fun start => absurd start inLine, fun start => absurd start inLine⟩
            · refine ⟨fun _ => none, fun start => ?_⟩
              simp only [moveAtToken, Move.emit, Bool.and_eq_true, decide_eq_true_eq,
                beq_iff_eq] at start ⊢
              rw [(scan_cutOff start.1).1, start.2]
              rfl

theorem start_settled (source : List Char) : (start source).Settled := ⟨fun _ => rfl, fun _ => rfl⟩

/-- A lexer that stands within a line gets to the start of one only by reading on. -/
theorem move_shorter {file : FileId} (inLine : lexer.atLineStart = false)
    (start : (lexer.move file).state.atLineStart = true) :
    (lexer.move file).state.cursor.ahead.length < lexer.cursor.ahead.length := by
  have elsewhere : ¬lexer.atLineStart = true := by simp [inLine]
  have skipped := Cursor.length_ahead_skipWhile_le isBlankInLine lexer.cursor
  simp only [move, if_neg elsewhere] at start ⊢
  split at start
  · exact absurd start elsewhere
  · rename_i none
    simp only [if_neg none]
    simp only [moveInLine] at start ⊢
    generalize lexer.cursor.skipWhile isBlankInLine = cursor at skipped start ⊢
    by_cases ended : cursor.ahead.isEmpty = true
    · simp only [if_pos ended, moveAtEnd] at start
      split at start <;> exact absurd start elsewhere
    · have remains : cursor.ahead ≠ [] := by simpa using ended
      simp only [if_neg ended] at start ⊢
      split at start
      · exact absurd start elsewhere
      · rename_i noComment
        simp only [if_neg noComment]
        have shorter := Cursor.length_ahead_skip_lt Nat.one_pos remains
        split at start
        · rename_i feed
          simp only [if_pos feed]
          simp only [moveAtLineFeed] at start ⊢
          split
          · exact Nat.lt_of_lt_of_le shorter skipped
          · split <;> exact Nat.lt_of_lt_of_le shorter skipped
        · rename_i noFeed
          simp only [if_neg noFeed]
          split at start
          · exact absurd start elsewhere
          · rename_i noContinuation
            simp only [if_neg noContinuation]
            have moves := scan_width_pos cursor.ahead
            exact Nat.lt_of_lt_of_le (Cursor.length_ahead_skip_lt (Nat.add_pos_left moves _) remains)
              skipped

theorem Past.move {further : List Char} (past : Past further lexer) (file : FileId) :
    Past further (lexer.move file).state := by
  obtain ⟨count, moved⟩ := move_reaches file lexer
  have shorter := Cursor.length_ahead_skip_le count lexer.cursor
  rw [← moved] at shorter
  refine ⟨Nat.le_trans shorter past.ahead, fun whole => ?_⟩
  have bound := past.ahead
  have inLine := past.inLine (by omega)
  by_contra start
  have := move_shorter inLine (by simpa using start)
  omega

/-- Past the lines no further move leads to the start of a line right behind them. -/
theorem Past.not_reached {back : List Char} (past : Past back lexer) {count : Nat}
    (reached : ((fun lexer => (lexer.move file).state)^[count] lexer).cursor.ahead = back) :
    ((fun lexer => (lexer.move file).state)^[count] lexer).atLineStart = false := by
  induction count generalizing lexer with
  | zero => exact past.inLine (congrArg List.length reached)
  | succ count induction => exact induction (past.move file) reached

/-- What is read of whole lines, whatever text follows them, up to the start of a logical line. -/
structure ReadsLines (file : FileId) (lexer : Lexer) (items : List Lexed) (base : Lexer) : Prop where
  reads : ∀ further, reader.items file (lexer.onTo further) =
    items ++ reader.items file (base.onTo further)
  reaches : lexer.cursor.Reaches base.cursor
  ended : base.cursor.ahead = []
  start : base.atLineStart = true
  settled : base.Settled
  before : ∀ item ∈ items, ∃ place, place < base.cursor.position ∧ StartsAt place item

theorem ReadsLines.of_ended (settled : lexer.Settled) (ended : lexer.cursor.ahead = [])
    (start : lexer.atLineStart = true) : ReadsLines file lexer [] lexer where
  reads := fun _ => rfl
  reaches := ⟨0, rfl⟩
  ended := ended
  start := start
  settled := settled
  before := nofun

/-- A move that is the same whatever text follows is not final. -/
theorem inner_of_moveOnTo (same : ∀ further, (lexer.onTo further).move file =
    moveOnTo further (lexer.move file)) : (lexer.move file).isFinal = false := by
  by_contra final
  have moved := same ['\n']
  have last : ((lexer.onTo ['\n']).move file).isFinal = true := by
    rw [moved]
    simpa [Move.isFinal, moveOnTo] using final
  obtain ⟨ended, atEnd, done⟩ := move_final last
  rw [moved] at done
  have state : (lexer.move file).state.onTo ['\n'] = ended := congrArg Move.state done
  have none := atEnd.ahead
  rw [← state] at none
  simp [onTo, Cursor.onTo] at none

/-- What the next move hands out in front of the text that follows. -/
theorem items_of_moveOnTo (same : ∀ further, (lexer.onTo further).move file =
    moveOnTo further (lexer.move file)) (further : List Char) :
    reader.items file (lexer.onTo further) =
      (lexer.move file).item.toList ++ reader.items file ((lexer.move file).state.onTo further) := by
  have inner := inner_of_moveOnTo same
  have moved : reader.move file (lexer.onTo further) = moveOnTo further (lexer.move file) := same further
  rw [Reader.items_of_move (by rw [moved]; exact inner), moved]
  rfl

theorem ReadsLines.move {items : List Lexed} {base : Lexer} (ends : EndsLine lexer.cursor.ahead)
    (remains : lexer.cursor.ahead ≠ [])
    (same : ∀ further, (lexer.onTo further).move file = moveOnTo further (lexer.move file))
    (reads : ReadsLines file (lexer.move file).state items base) :
    ReadsLines file lexer ((lexer.move file).item.toList ++ items) base where
  reads := by
    intro further
    rw [items_of_moveOnTo same, reads.reads, List.append_assoc]
  reaches := (move_reaches file lexer).trans reads.reaches
  ended := reads.ended
  start := reads.start
  settled := reads.settled
  before := by
    rw [List.forall_mem_append]
    refine ⟨fun item member => ?_, reads.before⟩
    obtain ⟨accepts, stops, starts⟩ := move_starts file lexer
    refine ⟨_, ?_, starts item (by simpa using member)⟩
    obtain ⟨count, reached⟩ := (move_reaches file lexer).trans reads.reaches
    have ended := reads.ended
    rw [reached, Cursor.ahead_skip, List.drop_eq_nil_iff] at ended
    have within := length_takeWhile_lt stops (ends.mem remains)
    obtain ⟨further, rfl⟩ := Nat.exists_eq_add_of_le (Nat.le_of_lt (Nat.lt_of_lt_of_le within ended))
    rw [reached, Cursor.skip_add]
    exact Cursor.position_lt_skip (by omega) (Cursor.skipWhile_remains stops (ends.mem remains))

/-- By induction on the moves: each is the same whatever follows, since one that leads past the lines
would not lead to the start of a line right behind them. -/
theorem exists_readsLines (file : FileId) {back : List Char} (count : Nat) (settled : lexer.Settled)
    (ends : EndsLine lexer.cursor.ahead)
    (reached : ((fun lexer => (lexer.move file).state)^[count] (lexer.onTo back)).cursor.ahead = back)
    (start : ((fun lexer => (lexer.move file).state)^[count] (lexer.onTo back)).atLineStart = true) :
    ∃ items base, ReadsLines file lexer items base := by
  induction count generalizing lexer with
  | zero =>
    have ended : lexer.cursor.ahead = [] := List.append_left_eq_self.1 reached
    exact ⟨[], lexer, .of_ended settled ended start⟩
  | succ count induction =>
    by_cases ended : lexer.cursor.ahead = []
    · refine ⟨[], lexer, .of_ended settled ended ?_⟩
      by_contra inLine
      have past : Past back (lexer.onTo back) :=
        ⟨by simp [onTo, Cursor.onTo, ended], fun _ => by simpa [onTo] using inLine⟩
      rw [past.not_reached reached] at start
      cases start
    · rw [Function.iterate_succ_apply] at reached start
      rcases move_onTo file ends ended with same | past
      · rw [same] at reached start
        obtain ⟨moved, next⟩ := move_reaches file lexer
        have endsNext : EndsLine (lexer.move file).state.cursor.ahead := by
          rw [next]
          exact ends_skip ends moved
        obtain ⟨items, base, reads⟩ := induction (move_settled file settled) endsNext reached start
        exact ⟨_, base, reads.move ends ended same⟩
      · rw [(past back).not_reached reached] at start
        cases start

end Lexer

def IsHidden (item : Lexed) : Prop :=
  item.token = .comment ∧ item.reports = [] ∧ ∀ entry ∈ item.entries, entry.token = .comment

/-- A line without a token: blanks, a comment behind them or none, and the end of the line. -/
structure IsBlank (line blanks comment ending : List Char) : Prop where
  split : line = blanks ++ (comment ++ ending)
  blanks : ∀ character ∈ blanks, Cursor.isIndentation character = true
  comment : comment = [] ∨
    comment.head? = some '#' ∧ ∀ character ∈ comment, isInLine character = true
  ending : ending = ['\n'] ∨ ending = ['\r', '\n']

section IsBlank

variable {line blanks comment ending back : List Char} {file : FileId} {lexer : Lexer}

variable (blank : IsBlank line blanks comment ending)

include blank

theorem IsBlank.exists_line : ∃ inner, line = inner ++ ['\n'] ∧ '\n' ∉ inner := by
  have noBlank : '\n' ∉ blanks := fun member => by cases blank.blanks _ member
  have noComment : '\n' ∉ comment := by
    rcases blank.comment with rfl | ⟨-, inLine⟩
    · exact List.not_mem_nil
    · exact fun member => by cases inLine _ member
  rcases blank.ending with rfl | rfl
  · exact ⟨blanks ++ comment, by simp [blank.split], by simp [noBlank, noComment]⟩
  · exact ⟨blanks ++ (comment ++ ['\r']), by simp [blank.split], by simp [noBlank, noComment]⟩

theorem IsBlank.lineBreakWidth : Lexical.lineBreakWidth (ending ++ back) = ending.length := by
  rcases blank.ending with rfl | rfl <;> rfl

theorem IsBlank.takeWhile_blanks : (line ++ back).takeWhile Cursor.isIndentation = blanks := by
  have stops : (comment ++ ending ++ back).takeWhile Cursor.isIndentation = [] := by
    rcases blank.comment with rfl | ⟨hash, -⟩
    · rcases blank.ending with rfl | rfl <;> rfl
    · obtain ⟨text, rfl⟩ := List.head?_eq_some_iff.1 hash
      rfl
  rw [blank.split, List.append_assoc, List.takeWhile_append_of_pos blank.blanks, stops, List.append_nil]

theorem IsBlank.takeWhile_comment (inLine : ∀ character ∈ comment, isInLine character = true) :
    (comment ++ (ending ++ back)).takeWhile isInLine = comment := by
  have stops : (ending ++ back).takeWhile isInLine = [] := by
    rcases blank.ending with rfl | rfl <;> rfl
  rw [List.takeWhile_append_of_pos inLine, stops, List.append_nil]

/-- The lexer passes over the line in one move, which hands out the comment if there is one. -/
theorem IsBlank.move (start : lexer.atLineStart = true) (settled : lexer.Settled)
    (ahead : lexer.cursor.ahead = line ++ back) :
    (lexer.move file).state = { lexer with cursor := lexer.cursor.skip line.length } ∧
      ∀ item ∈ (lexer.move file).item, IsHidden item := by
  have none : ¬0 < lexer.blocks.owed := by simp [settled.owed start]
  have reached : lexer.cursor.skipWhile Cursor.isIndentation = lexer.cursor.skip blanks.length := by
    rw [Cursor.skipWhile, ahead, blank.takeWhile_blanks]
  have left : (lexer.cursor.skip blanks.length).ahead = comment ++ (ending ++ back) := by
    rw [Cursor.ahead_skip, ahead, blank.split, List.append_assoc, List.drop_left, List.append_assoc]
  have whole : line.length = blanks.length + (comment.length + ending.length) := by
    rw [blank.split, List.length_append, List.length_append]
  have remains : (lexer.cursor.skip blanks.length).ahead.isEmpty = false := by
    rw [left]
    rcases blank.ending with rfl | rfl <;> simp
  simp only [Lexer.move, if_neg none, if_pos start, Lexer.moveAtLineStart, reached, remains,
    Bool.false_eq_true, if_false]
  rcases blank.comment with rfl | ⟨hash, inLine⟩
  · have breaks : Lexical.lineBreakWidth (ending ++ back) = ending.length := blank.lineBreakWidth
    rw [List.nil_append] at left
    have positive : 0 < ending.length := by rcases blank.ending with rfl | rfl <;> decide
    rw [left, breaks, if_pos positive]
    refine ⟨?_, by rintro _ ⟨⟩⟩
    rw [whole, List.length_nil, Nat.zero_add, Cursor.skip_add]
    rfl
  · obtain ⟨text, rfl⟩ := List.head?_eq_some_iff.1 hash
    have unbroken : Lexical.lineBreakWidth (lexer.cursor.skip blanks.length).ahead = 0 := by
      rw [left]
      rfl
    have starts : (lexer.cursor.skip blanks.length).startsWith '#' = true := by
      rw [Cursor.startsWith, left]
      rfl
    have scanned : (Lexer.commentScan (lexer.cursor.skip blanks.length).ahead).width =
        ('#' :: text).length := by
      rw [left]
      exact congrArg List.length (blank.takeWhile_comment inLine)
    have behind : (Lexer.afterComment (lexer.cursor.skip blanks.length)).ahead = ending ++ back := by
      rw [Lexer.afterComment, scanned, Cursor.ahead_skip, left, List.drop_left]
    rw [unbroken, if_neg (Nat.lt_irrefl 0), if_pos starts, behind, blank.lineBreakWidth]
    refine ⟨?_, ?_⟩
    · rw [whole, Cursor.skip_add, Cursor.skip_add, Lexer.afterComment, scanned]
      rfl
    · rintro _ ⟨⟩
      refine ⟨rfl, rfl, fun entry member => ?_⟩
      rw [List.mem_singleton.1 member]
      rfl

omit blank in
/-- Whole lines lead to the first column of a line, with no indentation. -/
theorem afterAll_lines {text : List Char} (ends : EndsLine text) {place : Position}
    (first : place.column = 0) : (place.afterAll text).column = 0 := by
  rcases List.eq_nil_or_concat text with rfl | ⟨inner, last, rfl⟩
  · exact first
  · obtain rfl : last = '\n' := ends last (by simp)
    rw [List.concat_eq_append, Position.afterAll_append]
    rfl

omit blank in
theorem visual_lines {text : List Char} (ends : EndsLine text) :
    text.foldl Cursor.visualAfter 0 = 0 := by
  rcases List.eq_nil_or_concat text with rfl | ⟨inner, last, rfl⟩
  · rfl
  · obtain rfl : last = '\n' := ends last (by simp)
    rw [List.concat_eq_append, List.foldl_append]
    rfl

theorem IsBlank.endsLine : EndsLine line := by
  obtain ⟨inner, rfl, -⟩ := blank.exists_line
  intro last member
  simpa using member.symm

/-- Behind the line the cursor stands one line further down than in front of it. -/
theorem IsBlank.below {cursor : Cursor} (ended : cursor.ahead = [])
    (first : cursor.position.column = 0) (visual : cursor.visual = 0) :
    Cursor.Below 1 (cursor.onTo back) ((cursor.onTo (line ++ back)).skip line.length) where
  ahead := by
    rw [Cursor.ahead_skip]
    simp [Cursor.onTo, ended]
  position := by
    have taken : (cursor.onTo (line ++ back)).ahead.take line.length = line := by
      simp [Cursor.onTo, ended]
    obtain ⟨inner, same, none⟩ := blank.exists_line
    rw [Cursor.position_skip, taken, same, Position.afterAll_append]
    have level := Position.line_afterAll none cursor.position
    simp only [Cursor.onTo, Position.down, first]
    rw [← level]
    rfl
  visual := by
    have taken : (cursor.onTo (line ++ back)).ahead.take line.length = line := by
      simp [Cursor.onTo, ended]
    rw [Cursor.visual_skip, taken]
    simp only [Cursor.onTo, visual]
    exact visual_lines blank.endsLine

variable {front : List Char} {count : Nat}

/-- With the line, all that starts behind its place stands one line further down. -/
theorem IsBlank.around (ends : EndsLine front)
    (reached : (after file (front ++ back) count).cursor.ahead = back)
    (start : (after file (front ++ back) count).atLineStart = true) :
    ∃ before between behind,
      reader.items file (Lexer.start (front ++ back)) = before ++ behind ∧
      reader.items file (Lexer.start (front ++ (line ++ back))) =
        before.map (Lexed.pushed (Position.origin.afterAll front)) ++
          (between ++ behind.map (Lexed.pushed (Position.origin.afterAll front))) ∧
      ∀ item ∈ between, IsHidden item := by
  obtain ⟨before, base, reads⟩ := @Lexer.exists_readsLines (Lexer.start front) file back count
    (Lexer.start_settled front) ends reached start
  obtain ⟨moved, stands⟩ := reads.reaches
  have ended := reads.ended
  rw [stands, Cursor.ahead_skip, List.drop_eq_nil_iff] at ended
  have whole : (Lexer.start front).cursor.ahead.take moved = front := List.take_of_length_le ended
  have position : base.cursor.position = Position.origin.afterAll front := by
    rw [stands, Cursor.position_skip, whole]
    rfl
  have visual : base.cursor.visual = 0 := by
    rw [stands, Cursor.visual_skip, whole]
    exact visual_lines ends
  have first : base.cursor.position.column = 0 := by
    rw [position]
    exact afterAll_lines ends rfl
  have below := @IsBlank.below _ _ _ _ back blank _ reads.ended first visual
  have ahead : (base.onTo (line ++ back)).cursor.ahead = line ++ back := by
    simp [Lexer.onTo, Cursor.onTo, reads.ended]
  obtain ⟨state, between⟩ := @IsBlank.move _ _ _ _ back file (base.onTo (line ++ back)) blank
    reads.start ⟨reads.settled.owed, reads.settled.depth⟩ ahead
  have inner : ((base.onTo (line ++ back)).move file).isFinal = false := by
    cases handed : ((base.onTo (line ++ back)).move file).item with
    | none => simp [Move.isFinal, handed]
    | some item => simp [Move.isFinal, handed, Lexed.isFinal, (between item handed).1]
  have further : reader.items file (base.onTo (line ++ back)) =
      ((base.onTo (line ++ back)).move file).item.toList ++
        (reader.items file (base.onTo back)).map (Lexed.down 1) := by
    rw [← Lexer.items_below file (base.onTo back) _ below, Reader.items_of_move inner]
    exact congrArg (fun next => _ ++ reader.items file next) state
  have above : before.map (Lexed.pushed (Position.origin.afterAll front)) = before := by
    refine List.map_congr_left (fun item member => ?_) |>.trans (List.map_id _)
    obtain ⟨place, inFront, starts⟩ := reads.before item member
    exact starts.pushed_of_lt (position ▸ inFront)
  have under : (reader.items file (base.onTo back)).map (Lexed.pushed (Position.origin.afterAll front)) =
      (reader.items file (base.onTo back)).map (Lexed.down 1) := by
    refine List.map_congr_left fun item member => ?_
    obtain ⟨place, behind, starts⟩ := Lexer.items_start file (base.onTo back) item member
    exact starts.pushed_of_le (position ▸ behind)
  refine ⟨before, ((base.onTo (line ++ back)).move file).item.toList,
    reader.items file (base.onTo back), reads.reads back, ?_, ?_⟩
  · rw [above, under, ← further]
    exact reads.reads (line ++ back)
  · intro item member
    exact between item (by simpa using member)

end IsBlank

def IsBlankLine (line : List Char) : Prop := ∃ blanks comment ending, IsBlank line blanks comment ending

end Python

theorem Position.pushed_inj {edge first second : Position} :
    first.pushed edge = second.pushed edge ↔ first = second := by
  refine ⟨fun same => ?_, fun same => by rw [same]⟩
  obtain ⟨line, column⟩ := edge
  obtain ⟨firstLine, firstColumn⟩ := first
  obtain ⟨secondLine, secondColumn⟩ := second
  simp only [pushed, le_def, down] at same
  split at same <;> split at same <;> simp only [mk.injEq] at same ⊢ <;> omega

/-- Nothing comes to stand on the line in front of the edge. -/
theorem Position.pushed_ne {edge : Position} (first : edge.column = 0) (place : Position)
    (column : Nat) : place.pushed edge ≠ ⟨edge.line, column⟩ := by
  intro same
  obtain ⟨line, edgeColumn⟩ := edge
  obtain ⟨placeLine, placeColumn⟩ := place
  simp only [pushed, le_def, down] at same first
  split at same <;> simp only [mk.injEq] at same <;> omega

/-- Entries that are moved apart without meeting are found where they were moved to. -/
theorem LexemeTable.get?_recordAll_map {move : Position → Position}
    (apart : ∀ first second, move first = move second ↔ first = second) {upper lower : LexemeTable}
    (same : ∀ place, lower.get? (move place) = upper.get? place) (entries : List Entry)
    (place : Position) :
    (lower.recordAll (entries.map fun entry => { entry with place := move entry.place })).get?
      (move place) = (upper.recordAll entries).get? place := by
  induction entries generalizing upper lower with
  | nil => exact same place
  | cons entry later induction =>
    refine induction fun place => ?_
    have moved : ({ entry with place := move entry.place } : Entry).lexeme? = entry.lexeme? := rfl
    cases found : entry.lexeme? with
    | none =>
      rw [recordEntry_of_none found, recordEntry_of_none (moved.trans found)]
      exact same place
    | some lexeme =>
      rw [get?_recordEntry_of_some found, get?_recordEntry_of_some (moved.trans found), same]
      simp only [apart]

namespace Python

open Context

variable {front line back : List Char} {file : FileId} {count : Nat}

theorem after_settled (file : FileId) (source : List Char) (count : Nat) :
    (after file source count).Settled := by
  induction count with
  | zero => exact Lexer.start_settled source
  | succ count induction =>
    rw [after_succ]
    exact Lexer.move_settled file induction

theorem reportsOf_pushed (edge : Position) (items : List Lexed) :
    reportsOf (items.map (Lexed.pushed edge)) = (reportsOf items).map (Diagnostic.pushed edge) := by
  rw [reportsOf, reportsOf, List.flatMap_map, List.map_flatMap]
  rfl

theorem entriesOf_pushed (edge : Position) (items : List Lexed) :
    entriesOf (items.map (Lexed.pushed edge)) = (entriesOf items).map (Entry.pushed edge) := by
  rw [entriesOf, entriesOf, List.flatMap_map, List.map_flatMap]
  rfl

section Between

variable {edge : Position} {before between behind : List Lexed}

theorem shown_around (comments : ∀ item ∈ between, IsHidden item) :
    (before.map (Lexed.pushed edge) ++ (between ++ behind.map (Lexed.pushed edge))).filter
        (fun item => item.token != .comment) =
      ((before ++ behind).filter fun item => item.token != .comment).map (Lexed.pushed edge) := by
  have hidden : between.filter (fun item => item.token != .comment) = [] :=
    List.filter_eq_nil_iff.2 fun item member => by simp [(comments item member).1]
  rw [List.filter_append, List.filter_append, hidden, List.nil_append, ← List.filter_append,
    ← List.map_append, List.filter_map]
  rfl

theorem reportsOf_around (comments : ∀ item ∈ between, IsHidden item) :
    reportsOf (before.map (Lexed.pushed edge) ++ (between ++ behind.map (Lexed.pushed edge))) =
      (reportsOf (before ++ behind)).map (Diagnostic.pushed edge) := by
  have silent : between.flatMap Lexed.reports = [] :=
    List.flatMap_eq_nil_iff.2 fun item member => (comments item member).2.1
  rw [← reportsOf_pushed, List.map_append]
  simp only [reportsOf, List.flatMap_append]
  rw [silent, List.nil_append]

theorem entriesOf_around (comments : ∀ item ∈ between, IsHidden item) :
    (entriesOf (before.map (Lexed.pushed edge) ++ (between ++ behind.map (Lexed.pushed edge)))).filter
        (fun entry => entry.token != .comment) =
      ((entriesOf (before ++ behind)).filter fun entry => entry.token != .comment).map
        (Entry.pushed edge) := by
  have hidden : (between.flatMap Lexed.entries).filter (fun entry => entry.token != .comment) = [] := by
    refine List.filter_eq_nil_iff.2 fun entry member => ?_
    obtain ⟨item, among, own⟩ := List.mem_flatMap.1 member
    simp [(comments item among).2.2 entry own]
  have apart := entriesOf_pushed edge (before ++ behind)
  rw [List.map_append] at apart
  simp only [entriesOf, List.flatMap_append] at apart ⊢
  rw [List.filter_append, List.filter_append, hidden, List.nil_append, ← List.filter_append, apart,
    List.filter_map]
  rfl

end Between

/-- A line without a token, put in at the start of a logical line, moves the tokens, the reports and the
recorded texts behind it one line further down, and does nothing else: on the line itself nothing is
recorded. -/
theorem lex_blank_line (ends : EndsLine front)
    (reached : (after file (front ++ back) count).cursor.ahead = back)
    (start : (after file (front ++ back) count).atLineStart = true) (blank : IsBlankLine line) :
    let upper := ({ file } : Context).lex .python (front ++ back)
    let lower := ({ file } : Context).lex .python (front ++ (line ++ back))
    let edge := Position.origin.afterAll front
    (after file (front ++ back) count).depth = 0 ∧
      lower.1 = upper.1.map (Prod.map id (Span.pushed edge)) ∧
      lower.2.diagnostics.toList = upper.2.diagnostics.toList.map (Diagnostic.pushed edge) ∧
      (∀ place, lower.2.lexemeAt (place.pushed edge) = upper.2.lexemeAt place) ∧
      ∀ column, lower.2.lexemeAt ⟨edge.line, column⟩ = none := by
  intro upper lower edge
  obtain ⟨blanks, comment, ending, blank⟩ := blank
  obtain ⟨before, between, behind, above, under, comments⟩ := blank.around ends reached start
  have lexed : ∀ source, ({ file } : Context).lex .python source =
      (((reader.items file (Lexer.start source)).filter fun item => item.token != .comment).map
        fun item => (item.token, item.span),
        ({ file } : Context).absorbAll (reader.items file (Lexer.start source))) := fun _ => rfl
  refine ⟨(after_settled file _ count).depth start, ?_, ?_, fun place => ?_, fun column => ?_⟩
  · simp only [upper, lower, lexed, above, under]
    rw [shown_around comments, List.map_map, List.map_map]
    rfl
  · simp only [upper, lower, lexed, above, under, diagnostics_absorbAll, reportsOf_around comments]
    simp [edge]
  · have texts := @LexemeTable.get?_recordAll_map (Position.pushed · edge)
      (fun _ _ => Position.pushed_inj) .empty .empty
      (fun _ => (LexemeTable.get?_empty _).trans (LexemeTable.get?_empty _).symm)
      ((entriesOf (before ++ behind)).filter fun entry => entry.token != .comment) place
    simp only [upper, lower, lexed, above, under, absorbAll_eq, lexemeAt]
    refine Eq.trans ?_ texts
    exact congrArg (fun entries => (LexemeTable.empty.recordAll entries).get? (place.pushed edge))
      (entriesOf_around comments)
  · have first : edge.column = 0 := afterAll_lines ends rfl
    have moved : ∀ entry ∈ ((entriesOf (before ++ behind)).filter fun entry =>
        entry.token != .comment).map (Entry.pushed edge), entry.place ≠ ⟨edge.line, column⟩ := by
      intro entry member
      obtain ⟨upperEntry, -, rfl⟩ := List.mem_map.1 member
      exact Position.pushed_ne first upperEntry.place column
    simp only [lower, lexed, under, absorbAll_eq, lexemeAt]
    refine (congrArg (fun entries => (LexemeTable.empty.recordAll entries).get? _)
      (entriesOf_around comments)).trans ?_
    rw [LexemeTable.get?_recordAll_spared fun entry member _ => moved entry member,
      LexemeTable.get?_empty]

/-- A comment behind a string that is cut off by the end of its line, in an indented block. -/
theorem lex_comment_behind_cut_string :
    let front := "if a:\n  b = 'c\n".toList
    let back := "  d\ne".toList
    let line := " \t# f\r\n".toList
    (after .single (front ++ back) 9).cursor.ahead = back ∧
      (after .single (front ++ back) 9).atLineStart = true ∧
      let upper := ({} : Context).lex .python (front ++ back)
      let lower := ({} : Context).lex .python (front ++ (line ++ back))
      lower.1 = upper.1.map (Prod.map id (Span.pushed ⟨2, 0⟩)) ∧ lower.1 ≠ upper.1 ∧
        lower.2.diagnostics.toList = upper.2.diagnostics.toList.map (Diagnostic.pushed ⟨2, 0⟩) ∧
        lower.2.lexemeAt ⟨3, 2⟩ = upper.2.lexemeAt ⟨2, 2⟩ ∧ lower.2.lexemeAt ⟨2, 2⟩ = none := by
  intro front back line
  have reached : (after .single (front ++ back) 9).cursor.ahead = back := by decide +kernel
  have start : (after .single (front ++ back) 9).atLineStart = true := by decide +kernel
  have last : front.getLast? = some '\n' := by decide
  have ends : EndsLine front := fun other member => (Option.some.inj (last.symm.trans member)).symm
  have blank : IsBlankLine line := ⟨[' ', '\t'], "# f".toList, ['\r', '\n'], by decide +kernel,
    by simp [Cursor.isIndentation], .inr (by simp [isInLine]), .inr rfl⟩
  have edge : Position.origin.afterAll front = ⟨2, 0⟩ := by decide +kernel
  have pushed : Position.pushed ⟨2, 2⟩ ⟨2, 0⟩ = ⟨3, 2⟩ := rfl
  have whole := lex_blank_line ends reached start blank
  rw [edge] at whole
  obtain ⟨-, tokens, reports, texts, nothing⟩ := whole
  have text := texts ⟨2, 2⟩
  rw [pushed] at text
  exact ⟨reached, start, tokens, by decide +kernel, reports, text, nothing 2⟩

end Python

end Offside
