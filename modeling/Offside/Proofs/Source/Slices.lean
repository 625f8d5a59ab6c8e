import Offside.Lexical.Lexed
import Offside.Report

/-!
Places of a moving cursor. Moving over a character leads to a later place, so a stretch of text that
is not empty starts and ends at different places. Lines and columns together never count more than the
characters read.
-/

namespace Offside

set_option autoImplicit false

namespace Position

instance : LT Position where
  lt earlier later :=
    earlier.line < later.line ∨ (earlier.line = later.line ∧ earlier.column < later.column)

theorem lt_def {earlier later : Position} :
    earlier < later ↔
      earlier.line < later.line ∨
        (earlier.line = later.line ∧ earlier.column < later.column) :=
  Iff.rfl

theorem lt_irrefl (place : Position) : ¬place < place := by
  rw [lt_def]
  omega

theorem ne_of_lt {earlier later : Position} (before : earlier < later) : earlier ≠ later := by
  rintro rfl
  exact lt_irrefl _ before

theorem lt_of_lt_of_le {first second third : Position} (before : first < second)
    (after : second ≤ third) : first < third := by
  rw [lt_def] at *
  rw [le_def] at after
  omega

theorem lt_of_le_of_lt {first second third : Position} (before : first ≤ second)
    (after : second < third) : first < third := by
  rw [lt_def] at *
  rw [le_def] at before
  omega

theorem lt_after (place : Position) (character : Char) : place < place.after character := by
  rw [lt_def, after]
  split
  · exact Or.inl (Nat.lt_succ_self _)
  · exact Or.inr ⟨rfl, Nat.lt_succ_self _⟩

end Position

namespace Cursor

theorem position_lt_skip {count : Nat} {cursor : Cursor} (moves : 0 < count)
    (remains : cursor.ahead ≠ []) : cursor.position < (cursor.skip count).position := by
  obtain ⟨character, later, found⟩ := List.exists_cons_of_ne_nil remains
  obtain ⟨fewer, rfl⟩ := Nat.exists_eq_succ_of_ne_zero (Nat.ne_of_gt moves)
  have first : cursor.position < cursor.advance.position := by
    rw [advance, found]
    exact Position.lt_after _ _
  exact Position.lt_of_lt_of_le first (position_le_skip fewer cursor.advance)

structure Reads (source : List Char) (cursor : Cursor) : Prop where
  text : cursor.text = source
  counted : cursor.position.line + cursor.position.column ≤ cursor.behind.length

namespace Reads

variable {source : List Char} {cursor : Cursor}

theorem advance (reads : cursor.Reads source) : cursor.advance.Reads source where
  text := by rw [text_advance, reads.text]
  counted := by
    have counted := reads.counted
    unfold Cursor.advance
    split
    · exact counted
    · simp only [Position.after, List.length_cons]
      split
      · simp only
        omega
      · simp only
        omega

theorem skip (reads : cursor.Reads source) (count : Nat) : (cursor.skip count).Reads source := by
  induction count generalizing cursor with
  | zero => exact reads
  | succ count induction => exact induction reads.advance

theorem skipWhile (reads : cursor.Reads source) (accepts : Char → Bool) :
    (cursor.skipWhile accepts).Reads source :=
  reads.skip _

end Reads

end Cursor

/-!
The text that a span stands for. Places are counted in lines and characters and slices are cut out by
bytes; the two agree because the place of a cursor is the one that the text behind it leads to.
-/

namespace Position

def afterAll (place : Position) (text : List Char) : Position := text.foldl after place

@[simp] theorem afterAll_nil (place : Position) : place.afterAll [] = place := rfl

@[simp] theorem afterAll_cons (place : Position) (character : Char) (text : List Char) :
    place.afterAll (character :: text) = (place.after character).afterAll text :=
  rfl

theorem afterAll_append (place : Position) (front back : List Char) :
    place.afterAll (front ++ back) = (place.afterAll front).afterAll back :=
  List.foldl_append

theorem line_afterAll {text : List Char} (inLine : '\n' ∉ text) (place : Position) :
    (place.afterAll text).line = place.line := by
  induction text generalizing place with
  | nil => rfl
  | cons character text induction =>
    simp only [List.mem_cons, not_or] at inLine
    rw [afterAll_cons, induction inLine.2, after, if_neg (Ne.symm inLine.1)]

/-- A place seen from an earlier one: on the first line its columns go on. -/
def beyond (base place : Position) : Position :=
  ⟨base.line + place.line, if place.line = 0 then base.column + place.column else place.column⟩

@[simp] theorem beyond_origin (base : Position) : base.beyond origin = base := rfl

theorem beyond_after (base place : Position) (character : Char) :
    (base.beyond place).after character = base.beyond (place.after character) := by
  unfold after beyond
  by_cases lineFeed : character = '\n'
  · simp [lineFeed, Nat.add_assoc]
  · by_cases first : place.line = 0
    · simp [lineFeed, first, Nat.add_assoc]
    · simp [lineFeed, first]

theorem beyond_afterAll (base place : Position) (text : List Char) :
    (base.beyond place).afterAll text = base.beyond (place.afterAll text) := by
  induction text generalizing place with
  | nil => rfl
  | cons character text induction =>
    rw [afterAll_cons, afterAll_cons, beyond_after, induction]

theorem afterAll_eq_beyond (base : Position) (text : List Char) :
    base.afterAll text = base.beyond (origin.afterAll text) := by
  rw [← beyond_afterAll, beyond_origin]

end Position

@[simp] theorem byteCount_append (front back : List Char) :
    byteCount (front ++ back) = byteCount front + byteCount back := by
  induction front with
  | nil => simp [byteCount]
  | cons character front induction => simp only [List.cons_append, byteCount, induction]; omega

/-- The place after the first part of a text has the bytes of that part before it. -/
theorem byteOffset_afterAll (front back : List Char) :
    byteOffset (front ++ back) (Position.origin.afterAll front) = byteCount front := by
  induction front with
  | nil => cases back <;> rfl
  | cons character front induction =>
    rw [Position.afterAll_cons, Position.afterAll_eq_beyond, byteCount, ← induction,
      List.cons_append]
    generalize Position.origin.afterAll front = place
    obtain ⟨line, column⟩ := place
    by_cases lineFeed : character = '\n'
    · simp [Position.after, Position.beyond, Position.origin, lineFeed, Nat.add_comm 1 line,
        byteOffset]
    · cases line with
      | zero =>
        simp [Position.after, Position.beyond, Position.origin, lineFeed,
          Nat.add_comm 1 column, byteOffset]
      | succ line =>
        simp [Position.after, Position.beyond, Position.origin, lineFeed, byteOffset]

/-- The first bytes of a text and what follows them, if they are whole characters. -/
def splitBytes? : Nat → List Char → Option (List Char × List Char)
  | 0, text => some ([], text)
  | _ + 1, [] => none
  | count + 1, character :: rest =>
    if character.utf8Size ≤ count + 1 then
      (splitBytes? (count + 1 - character.utf8Size) rest).map (Prod.map (character :: ·) id)
    else none

theorem splitBytes?_append (front back : List Char) :
    splitBytes? (byteCount front) (front ++ back) = some (front, back) := by
  induction front with
  | nil => simp [byteCount, splitBytes?]
  | cons character front induction =>
    have positive := character.utf8Size_pos
    obtain ⟨count, counted⟩ : ∃ count, byteCount (character :: front) = count + 1 :=
      Nat.exists_eq_succ_of_ne_zero (by simp only [byteCount]; omega)
    have rest : count + 1 - character.utf8Size = byteCount front := by
      rw [← counted, byteCount]
      omega
    rw [counted, List.cons_append, splitBytes?, rest,
      if_pos (by rw [← counted, byteCount]; omega), induction]
    rfl

def Span.slice? (span : Span) (source : List Char) : Option (List Char) := do
  let (first, stop) := span.byteRange source
  let (_, rest) ← splitBytes? first source
  let (text, _) ← splitBytes? (stop - first) rest
  return text

theorem Span.slice?_of_byteRange {span : Span} {front text back : List Char}
    (range : span.byteRange (front ++ text ++ back) =
      (byteCount front, byteCount (front ++ text))) :
    span.slice? (front ++ text ++ back) = some text := by
  have extent : byteCount (front ++ text) - byteCount front = byteCount text := by
    rw [byteCount_append]
    omega
  unfold slice?
  simp only [range, extent]
  rw [List.append_assoc, splitBytes?_append front]
  simp [splitBytes?_append text]

theorem Span.slice?_afterAll {span : Span} {front text back : List Char}
    (start : span.start = Position.origin.afterAll front)
    (stop : span.stop = Position.origin.afterAll (front ++ text)) :
    span.slice? (front ++ text ++ back) = some text := by
  have first : byteOffset (front ++ text ++ back) span.start = byteCount front := by
    rw [start, List.append_assoc, byteOffset_afterAll]
  have last : byteOffset (front ++ text ++ back) span.stop = byteCount (front ++ text) := by
    rw [stop, byteOffset_afterAll]
  refine slice?_of_byteRange ?_
  simp only [byteRange, first, last, byteCount_append]
  rw [Nat.max_eq_right (by omega)]

namespace Cursor

theorem behind_skip (count : Nat) (cursor : Cursor) :
    (cursor.skip count).behind.reverse = cursor.behind.reverse ++ cursor.ahead.take count := by
  induction count generalizing cursor with
  | zero => simp [skip]
  | succ count induction =>
    rw [skip, induction, ahead_advance]
    cases found : cursor.ahead with
    | nil => simp [advance, found]
    | cons character rest => simp [advance, found]

theorem position_skip (count : Nat) (cursor : Cursor) :
    (cursor.skip count).position = cursor.position.afterAll (cursor.ahead.take count) := by
  induction count generalizing cursor with
  | zero => rfl
  | succ count induction =>
    rw [skip, induction, ahead_advance]
    cases found : cursor.ahead with
    | nil => simp [advance, found]
    | cons character rest => simp [advance, found]

theorem visual_skip (count : Nat) (cursor : Cursor) :
    (cursor.skip count).visual = (cursor.ahead.take count).foldl visualAfter cursor.visual := by
  induction count generalizing cursor with
  | zero => rfl
  | succ count induction =>
    rw [skip, induction, ahead_advance]
    cases found : cursor.ahead with
    | nil => simp [advance, found]
    | cons character rest => simp [advance, found]

theorem skip_add (first second : Nat) (cursor : Cursor) :
    cursor.skip (first + second) = (cursor.skip first).skip second := by
  induction first generalizing cursor with
  | zero => rw [Nat.zero_add, skip]
  | succ first induction => rw [Nat.succ_add, skip, induction, skip]

structure Stands (source : List Char) (cursor : Cursor) : Prop where
  text : cursor.text = source
  position : cursor.position = Position.origin.afterAll cursor.behind.reverse

theorem stands_ofText (source : List Char) : (ofText source).Stands source where
  text := rfl
  position := rfl

namespace Stands

variable {source : List Char} {cursor : Cursor}

theorem advance (stands : cursor.Stands source) : cursor.advance.Stands source where
  text := by rw [text_advance, stands.text]
  position := by
    have position := stands.position
    unfold Cursor.advance
    split
    · exact position
    · simp only [List.reverse_cons, Position.afterAll_append, ← position]
      rfl

theorem skip (stands : cursor.Stands source) (count : Nat) :
    (cursor.skip count).Stands source := by
  induction count generalizing cursor with
  | zero => exact stands
  | succ count induction => exact induction stands.advance

theorem skipWhile (stands : cursor.Stands source) (accepts : Char → Bool) :
    (cursor.skipWhile accepts).Stands source :=
  stands.skip _

/-- The span from a cursor over the next characters stands for these characters. -/
theorem slice?_ahead (stands : cursor.Stands source) (file : FileId) (width : Nat) :
    (⟨file, cursor.position, (cursor.skip width).position⟩ : Span).slice? source =
      some (cursor.ahead.take width) := by
  have split : source =
      cursor.behind.reverse ++ cursor.ahead.take width ++ cursor.ahead.drop width := by
    rw [List.append_assoc, List.take_append_drop, ← stands.text]
    rfl
  have start := stands.position
  have stop := (stands.skip width).position
  rw [behind_skip] at stop
  rw [split]
  exact Span.slice?_afterAll start stop

end Stands

end Cursor

/-!
Texts further down. What stands in a text stands the same number of lines further down once other
lines are put in front of it, at the same columns.
-/

namespace Position

def down (lines : Nat) (place : Position) : Position := ⟨place.line + lines, place.column⟩

variable {lines : Nat} {first second : Position}

theorem down_inj : first.down lines = second.down lines ↔ first = second := by
  obtain ⟨line, column⟩ := first
  obtain ⟨other, otherColumn⟩ := second
  simp only [down, mk.injEq]
  omega

theorem down_le_down : first.down lines ≤ second.down lines ↔ first ≤ second := by
  simp only [le_def, down]
  omega

theorem after_down (lines : Nat) (place : Position) (character : Char) :
    (place.down lines).after character = (place.after character).down lines := by
  unfold after down
  split
  · simp only [mk.injEq, and_true]
    omega
  · rfl

theorem line_le_of_le (before : first ≤ second) : first.line ≤ second.line := by
  rw [le_def] at before
  omega

theorem line_afterAll_eq (place : Position) (text : List Char) :
    (place.afterAll text).line = place.line + text.count '\n' := by
  induction text generalizing place with
  | nil => rfl
  | cons character text induction =>
    rw [afterAll_cons, induction, List.count_cons, after]
    by_cases lineFeed : character = '\n'
    · simp only [lineFeed, if_true, beq_self_eq_true]
      omega
    · simp [lineFeed]

end Position

namespace Span

def down (lines : Nat) (span : Span) : Span :=
  ⟨span.file, span.start.down lines, span.stop.down lines⟩

theorem isPoint_down (lines : Nat) (span : Span) : (span.down lines).isPoint = span.isPoint := by
  simp only [isPoint, down, Position.down_inj]

end Span

namespace Cursor

/-- Two cursors at the same place of the same text, the second of them in a text that stands further
down. -/
structure Below (lines : Nat) (upper lower : Cursor) : Prop where
  ahead : lower.ahead = upper.ahead
  position : lower.position = upper.position.down lines
  visual : lower.visual = upper.visual

namespace Below

variable {lines : Nat} {upper lower : Cursor}

theorem indentation (below : Below lines upper lower) : lower.indentation = upper.indentation :=
  congrArg UInt32.toNat below.visual

theorem advance (below : Below lines upper lower) : Below lines upper.advance lower.advance := by
  have same := below.ahead
  unfold Cursor.advance
  cases found : upper.ahead with
  | nil =>
    rw [found] at same
    simp only [same]
    exact below
  | cons character rest =>
    rw [found] at same
    simp only [same]
    exact
      { ahead := rfl
        position := by
          rw [below.position]
          exact Position.after_down lines upper.position character
        visual := congrArg (visualAfter · character) below.visual }

theorem skip (below : Below lines upper lower) (count : Nat) :
    Below lines (upper.skip count) (lower.skip count) := by
  induction count generalizing upper lower with
  | zero => exact below
  | succ count induction => exact induction below.advance

theorem skipWhile (below : Below lines upper lower) (accepts : Char → Bool) :
    Below lines (upper.skipWhile accepts) (lower.skipWhile accepts) := by
  unfold Cursor.skipWhile
  rw [below.ahead]
  exact below.skip _

end Below

theorem skipWhile_append {accepts : Char → Bool} {cursor : Cursor} {front back : List Char}
    (ahead : cursor.ahead = front ++ back) (accepted : ∀ character ∈ front, accepts character = true) :
    cursor.skipWhile accepts = (cursor.skip front.length).skipWhile accepts := by
  have rest : (cursor.skip front.length).ahead = back := by
    rw [ahead_skip, ahead, List.drop_left]
  unfold skipWhile
  rw [rest, ahead, List.takeWhile_append_of_pos accepted, List.length_append, skip_add]

def onTo (further : List Char) (cursor : Cursor) : Cursor :=
  { cursor with ahead := cursor.ahead ++ further }

theorem onTo_skip {cursor : Cursor} {count : Nat} (within : count ≤ cursor.ahead.length)
    (further : List Char) : (cursor.onTo further).skip count = (cursor.skip count).onTo further := by
  induction count generalizing cursor with
  | zero => rfl
  | succ count induction =>
    have moved : (cursor.onTo further).advance = cursor.advance.onTo further := by
      unfold advance onTo
      cases found : cursor.ahead with
      | nil =>
        rw [found] at within
        cases within
      | cons character rest => rfl
    have fewer : count ≤ cursor.advance.ahead.length := by
      rw [ahead_advance, List.length_drop]
      omega
    rw [skip, moved, induction fewer, skip]

end Cursor

namespace Lexical

/-- The token the given number of lines further down, with all that it brings about. -/
def Lexed.down (lines : Nat) (item : Lexed) : Lexed where
  token := item.token
  span := item.span.down lines
  reports := item.reports.map fun report => { report with span := report.span.down lines }
  entries := item.entries.map fun entry => { entry with place := entry.place.down lines }

theorem spanAhead_below {lines : Nat} {upper lower : Cursor}
    (below : Cursor.Below lines upper lower) (file : FileId) (width : Nat) :
    spanAhead file lower width = (spanAhead file upper width).down lines := by
  unfold spanAhead
  rw [below.position, (below.skip width).position]
  rfl

end Lexical

/-!
The two ways of counting in a text. A cursor keeps its line, its column and its byte offset as it
moves, while `byteOffset` finds the offset of a place by reading the text again; on every place that
a cursor comes to the two are the same. Any other place, also one beyond the end of its line or of
the text, still has its offset on a character boundary, in the order of the places, so the bytes of
every span are a slice of the text.
-/

@[simp] theorem byteCount_reverse (text : List Char) : byteCount text.reverse = byteCount text := by
  induction text with
  | nil => rfl
  | cons character text induction =>
    rw [List.reverse_cons, byteCount_append, induction]
    simp only [byteCount]
    omega

theorem utf8ByteSize_ofList (text : List Char) :
    (String.ofList text).utf8ByteSize = byteCount text := by
  induction text with
  | nil => rfl
  | cons character text induction =>
    have split : String.ofList (character :: text) =
        String.singleton character ++ String.ofList text := by
      apply String.ext
      simp
    rw [split, String.utf8ByteSize_append, String.utf8ByteSize_singleton, induction, byteCount]

/-- A number of bytes after which a character of the text starts, or the text ends. -/
def IsBoundary (source : List Char) (offset : Nat) : Prop :=
  ∃ front back, source = front ++ back ∧ offset = byteCount front

theorem isBoundary_zero (source : List Char) : IsBoundary source 0 :=
  ⟨[], source, rfl, rfl⟩

theorem IsBoundary.cons {source : List Char} {offset : Nat} (boundary : IsBoundary source offset)
    (character : Char) : IsBoundary (character :: source) (character.utf8Size + offset) := by
  obtain ⟨front, back, rfl, rfl⟩ := boundary
  exact ⟨character :: front, back, rfl, rfl⟩

theorem isBoundary_byteOffset (source : List Char) (place : Position) :
    IsBoundary source (byteOffset source place) := by
  fun_induction byteOffset source place with
  | case1 => exact isBoundary_zero []
  | case2 character rest line column ih => exact ih.cons character
  | case3 character rest => exact isBoundary_zero _
  | case4 rest column => exact (isBoundary_zero rest).cons '\n'
  | case5 character rest column differs ih => exact ih.cons character

theorem Position.le_on_line {line column further : Nat} :
    (⟨line, column⟩ : Position) ≤ ⟨line, further⟩ ↔ column ≤ further := by
  simp [Position.le_def]

theorem byteOffset_le_byteOffset (source : List Char) {earlier later : Position}
    (inOrder : earlier ≤ later) : byteOffset source earlier ≤ byteOffset source later := by
  fun_induction byteOffset source earlier generalizing later with
  | case1 => exact Nat.zero_le _
  | case2 character rest line column ih =>
    obtain ⟨laterLine, laterColumn⟩ := later
    obtain ⟨fewer, rfl⟩ : ∃ fewer, laterLine = fewer + 1 := by
      rw [Position.le_def] at inOrder
      exact ⟨laterLine - 1, by simp only at inOrder; omega⟩
    rw [byteOffset]
    refine Nat.add_le_add_left (ih ?_) _
    -- past a line feed both places are counted from the next line on
    rw [Position.le_def] at inOrder ⊢
    split
    · simp only at inOrder ⊢
      omega
    · exact inOrder
  | case3 => exact Nat.zero_le _
  | case4 rest column =>
    obtain ⟨_ | laterLine, laterColumn⟩ := later
    · rw [Position.le_on_line] at inOrder
      cases laterColumn with
      | zero => omega
      | succ laterColumn => exact Nat.le_of_eq (by rw [byteOffset, if_pos rfl])
    · rw [byteOffset]
      exact Nat.le_add_right _ _
  | case5 character rest column differs ih =>
    obtain ⟨_ | laterLine, laterColumn⟩ := later
    · rw [Position.le_on_line] at inOrder
      cases laterColumn with
      | zero => omega
      | succ laterColumn =>
        rw [byteOffset, if_neg differs]
        refine Nat.add_le_add_left (ih ?_) _
        rw [Position.le_on_line]
        omega
    · rw [byteOffset, if_neg differs]
      exact Nat.add_le_add_left (ih (Or.inl (Nat.succ_pos _))) _

theorem IsBoundary.split {source : List Char} {first last : Nat} (boundary : IsBoundary source first)
    (beyond : IsBoundary source last) (inOrder : first ≤ last) :
    ∃ front text back, source = front ++ text ++ back ∧ first = byteCount front ∧
      last = byteCount (front ++ text) := by
  obtain ⟨front, rest, rfl, rfl⟩ := boundary
  obtain ⟨whole, back, same, rfl⟩ := beyond
  obtain ⟨text, rfl, rfl⟩ | ⟨text, rfl, rfl⟩ := List.append_eq_append_iff.mp same
  · exact ⟨front, text, back, by rw [List.append_assoc], rfl, rfl⟩
  · -- the other way round nothing lies between the boundaries
    refine ⟨whole ++ text, [], rest, by rw [List.append_nil], rfl, ?_⟩
    rw [List.append_nil]
    exact Nat.le_antisymm (by rw [byteCount_append]; omega) inOrder

namespace Span

theorem byteRange_of_le {span : Span} (inOrder : span.start ≤ span.stop) (source : List Char) :
    span.byteRange source = (byteOffset source span.start, byteOffset source span.stop) := by
  rw [byteRange, Nat.max_eq_right (byteOffset_le_byteOffset source inOrder)]

/-- The bytes of any span are a piece of the text, also those of a span that ends before it
starts. -/
theorem byteRange_splits (span : Span) (source : List Char) :
    ∃ front text back, source = front ++ text ++ back ∧
      span.byteRange source = (byteCount front, byteCount (front ++ text)) := by
  have first := isBoundary_byteOffset source span.start
  have last : IsBoundary source (span.byteRange source).2 := by
    rcases Nat.le_total (byteOffset source span.start) (byteOffset source span.stop) with
      inOrder | inOrder
    · simpa only [byteRange, Nat.max_eq_right inOrder] using isBoundary_byteOffset source span.stop
    · simpa only [byteRange, Nat.max_eq_left inOrder] using first
  obtain ⟨front, text, back, whole, start, stop⟩ := first.split last (Nat.le_max_left _ _)
  exact ⟨front, text, back, whole, Prod.ext start stop⟩

end Span

namespace Cursor

theorem offset_advance (cursor : Cursor) :
    cursor.advance.offset + byteCount cursor.behind =
      cursor.offset + byteCount cursor.advance.behind := by
  unfold advance
  split
  · rfl
  · simp only [byteCount]
    omega

theorem offset_skip (count : Nat) (cursor : Cursor) :
    (cursor.skip count).offset + byteCount cursor.behind =
      cursor.offset + byteCount (cursor.skip count).behind := by
  induction count generalizing cursor with
  | zero => rfl
  | succ count induction =>
    have first := offset_advance cursor
    have rest := induction cursor.advance
    rw [skip]
    omega

theorem offset_skip_ofText (source : List Char) (count : Nat) :
    ((ofText source).skip count).offset = byteCount (source.take count) := by
  have counted := offset_skip count (ofText source)
  have behind := behind_skip count (ofText source)
  rw [← byteCount_reverse ((ofText source).skip count).behind, behind] at counted
  simpa [ofText, byteCount] using counted

end Cursor

/-- Lines and columns lead to the bytes that a cursor counts, in any text and after any part of it;
places in order, within the text or beyond it, have offsets in order on character boundaries of the
text; so the bytes of a span are a slice of the text, and every report is about bytes of its
source. -/
theorem offsets_agree (source : List Char) :
    (∀ count, let cursor := (Cursor.ofText source).skip count
      byteOffset source cursor.position = cursor.offset ∧
        cursor.offset = (String.ofList (source.take count)).utf8ByteSize) ∧
    (∀ earlier later : Position, earlier ≤ later →
      byteOffset source earlier ≤ byteOffset source later ∧
        byteOffset source later ≤ (String.ofList source).utf8ByteSize ∧
        IsBoundary source (byteOffset source earlier) ∧
        IsBoundary source (byteOffset source later)) ∧
    (∀ span : Span, span.start ≤ span.stop →
      ∃ front text back, source = front ++ text ++ back ∧
        span.byteRange source = (byteOffset source span.start, byteOffset source span.stop) ∧
        span.byteRange source = (byteCount front, byteCount (front ++ text)) ∧
        span.slice? source = some text) ∧
    (∀ diagnostic : Diagnostic, let report := diagnostic.report source
      report.offset + report.length ≤ (String.ofList source).utf8ByteSize ∧
        IsBoundary source report.offset ∧
        IsBoundary source (report.offset + report.length)) := by
  simp only [utf8ByteSize_ofList]
  refine ⟨?_, ?_, ?_, ?_⟩
  · intro count
    have stands := (Cursor.stands_ofText source).skip count
    have offset := Cursor.offset_skip_ofText source count
    have behind : ((Cursor.ofText source).skip count).behind.reverse = source.take count :=
      Cursor.behind_skip count (Cursor.ofText source)
    refine ⟨?_, offset⟩
    rw [offset, stands.position, behind]
    have counted := byteOffset_afterAll (source.take count) (source.drop count)
    rwa [List.take_append_drop] at counted
  · intro earlier later inOrder
    exact ⟨byteOffset_le_byteOffset source inOrder, byteOffset_le_byteCount source later,
      isBoundary_byteOffset source earlier, isBoundary_byteOffset source later⟩
  · intro span inOrder
    obtain ⟨front, text, back, rfl, range⟩ := span.byteRange_splits source
    exact ⟨front, text, back, rfl, Span.byteRange_of_le inOrder _, range,
      Span.slice?_of_byteRange range⟩
  · intro diagnostic
    obtain ⟨front, text, back, rfl, range⟩ := diagnostic.span.byteRange_splits source
    have offset : (diagnostic.report (front ++ text ++ back)).offset = byteCount front := by
      rw [Diagnostic.report, Span.byteExtent, range]
    have total : (diagnostic.report (front ++ text ++ back)).offset +
        (diagnostic.report (front ++ text ++ back)).length = byteCount (front ++ text) := by
      simp only [Diagnostic.report, Span.byteExtent, range, byteCount_append]
      omega
    refine ⟨report_within_source _ _, ?_, ?_⟩
    · exact ⟨front, text ++ back, List.append_assoc _ _ _, offset⟩
    · exact ⟨front ++ text, back, rfl, total⟩

end Offside
