import Mathlib.Data.List.Pairwise
import Offside.Proofs.Endings.HaskellScans
import Offside.Proofs.Layout.LetBlocks
import Offside.Proofs.Layout.Seam

/-!
The lines on which tokens stand. The lexer remembers the line on which the last token starts, so a
token is the first of its line if no other token starts there before it. Only a string or a character
goes on in a further line; a token behind its tail is taken for the first of that line, though it is
not alone on it. In front of any other token that shares its line with an earlier one, layout adds no
semicolon and closes no block but those that the token closes by what it is.
-/

namespace Offside.Haskell

set_option autoImplicit false

open Lexical Text

variable {file : FileId} {source : List Char}

theorem line_le_of_lt {first second : Position} (before : first < second) :
    first.line ≤ second.line := by
  rw [Position.lt_def] at before
  omega

namespace Written

/-- Some part of a token stands on a line. -/
def IsOn (written : Written) (line : Nat) : Prop :=
  ∃ column, written.span.start ≤ ⟨line, column⟩ ∧ (⟨line, column⟩ : Position) < written.span.stop

/-- A token starts on an earlier line and has its tail on this one. -/
def RunsInto (written : Written) (line : Nat) : Prop :=
  written.span.start.line < line ∧ (⟨line, 0⟩ : Position) < written.span.stop

instance (written : Written) (line : Nat) : Decidable (written.RunsInto line) :=
  decidable_of_iff
    (written.span.start.line < line ∧
      (line < written.span.stop.line ∨
        (line = written.span.stop.line ∧ 0 < written.span.stop.column)))
    (by rw [RunsInto, Position.lt_def])

theorem isOn_iff {written : Written} (wide : written.span.start < written.span.stop) (line : Nat) :
    written.IsOn line ↔ written.span.start.line = line ∨ written.RunsInto line := by
  obtain ⟨token, ⟨owner, start, stop⟩, column, firstOnLine⟩ := written
  simp only [IsOn, RunsInto, Position.le_def, Position.lt_def] at wide ⊢
  constructor
  · rintro ⟨column, reached, inside⟩
    omega
  · rintro (rfl | ⟨before, inside⟩)
    · exact ⟨start.column, by omega⟩
    · exact ⟨0, by omega⟩

end Written

theorem lineFeed_not_mem_take {text : List Char} {count : Nat}
    (within : count ≤ (firstLine text).length) : '\n' ∉ text.take count := by
  intro member
  have split : firstLine text ++ text.dropWhile isInLine = text := List.takeWhile_append_dropWhile
  rw [← split, List.take_append_of_le_length within] at member
  cases List.mem_takeWhile_imp (List.mem_of_mem_take member)

namespace Lexer

/-- Tokens but comments, strings and characters end on the line on which they start. -/
theorem nextWritten_inLine (file : FileId) {lexer : Lexer}
    (noComment : lexer.nextScan.token ≠ .comment) (noString : lexer.nextScan.token ≠ .string)
    (noCharacter : lexer.nextScan.token ≠ .character) :
    (lexer.nextWritten file).span.stop.line = (lexer.nextWritten file).span.start.line := by
  change (lexer.place.skip lexer.nextScan.width).position.line = lexer.place.position.line
  rw [Cursor.position_skip]
  apply Position.line_afterAll
  have start := lexer.leads_place
  unfold nextScan at *
  generalize (lexer.properEnd == some lexer.place.position) = afterProper at *
  cases ahead : lexer.place.ahead with
  | nil => simp
  | cons first rest =>
    rw [ahead] at noComment noString noCharacter start
    have noFeed : first ≠ '\n' := by
      rintro rfl
      cases start
    have noReturn : '\r' ≠ first := by
      rintro rfl
      cases start
    have inLine := isInLine_of_ne noFeed noReturn
    have noBlock : (first == '{' && leads (· == '-') rest) = false := by
      by_contra block
      simp [scan, Bool.of_not_eq_false block, scanBlockComment] at noComment
    have noLine : startsLineComment (first :: rest) = false := by
      by_contra comment
      rw [scan_comment _ noBlock (Bool.of_not_eq_false comment)] at noComment
      exact noComment rfl
    have noQuotes : (first == '"') = false := by
      by_contra quotes
      obtain rfl := eq_of_beq (Bool.of_not_eq_false quotes)
      rw [scan_string] at noString
      exact noString rfl
    have noQuote : (first == '\'') = false := by
      by_contra quote
      obtain rfl := eq_of_beq (Bool.of_not_eq_false quote)
      rw [scan_character] at noCharacter
      exact noCharacter rfl
    have within := (scan_reads inLine noBlock noLine noQuotes noQuote afterProper).within
    exact lineFeed_not_mem_take (Nat.le_of_add_right_le within)

/-- Every token but the last has a width and ends before the others start. -/
theorem scanned_apart (file : FileId) (lexer : Lexer) :
    (lexer.scanned file).Pairwise fun earlier later =>
      earlier.span.start < earlier.span.stop ∧ earlier.span.stop ≤ later.span.start := by
  fun_induction Lexer.scanned file lexer with
  | case1 lexer ended => exact List.pairwise_singleton _ _
  | case2 lexer inner shorter induction =>
    have stop : (lexer.nextWritten file).span.stop = lexer.pastNext.cursor.position := by
      rw [cursor_pastNext]
      rfl
    refine List.pairwise_cons.2 ⟨fun later member => ?_, induction⟩
    rw [stop]
    exact ⟨position_lt_pastNext inner, position_le_scanned file lexer.pastNext later member⟩

theorem scanned_inLine (file : FileId) (lexer : Lexer) :
    ∀ written ∈ lexer.scanned file, written.token ≠ .comment → written.token ≠ .string →
      written.token ≠ .character → written.span.stop.line = written.span.start.line := by
  fun_induction Lexer.scanned file lexer with
  | case1 lexer ended =>
    intro written member
    rw [List.mem_singleton.1 member]
    exact nextWritten_inLine file
  | case2 lexer inner shorter induction =>
    exact List.forall_mem_cons.2 ⟨nextWritten_inLine file, induction⟩

/-- The line that is remembered when a token is read is that of the token before it. -/
theorem written_firstOnLine {lexer : Lexer} {earlier later : List Written} {token : Written}
    (found : lexer.written file = earlier ++ token :: later) :
    token.firstOnLine =
      ((earlier.getLast?.map (·.span.start.line)).or lexer.lastLine !=
        some token.span.start.line) := by
  fun_induction Lexer.written file lexer generalizing earlier with
  | case1 lexer ended =>
    cases earlier with
    | nil =>
      rw [← (List.cons.inj found).1]
      rfl
    | cons first earlier => simp at found
  | case2 lexer inner shorter comment induction =>
    have remembered : lexer.pastNext.lastLine = lexer.lastLine := by
      simp [pastNext, comment]
    rw [induction found, remembered]
  | case3 lexer inner shorter other induction =>
    have remembered : lexer.pastNext.lastLine = some lexer.place.position.line := by
      simp [pastNext, other]
    cases earlier with
    | nil =>
      rw [← (List.cons.inj found).1]
      rfl
    | cons first earlier =>
      obtain ⟨rfl, rest⟩ := List.cons.inj found
      rw [induction rest, remembered, List.getLast?_cons]
      cases earlier.getLast? with
      | none => rfl
      | some previous => rfl

end Lexer

section

variable {earlier later : List Written} {token : Written}

variable (found : writtenTokens file source = earlier ++ token :: later)

include found

theorem written_apart :
    (∀ other ∈ earlier,
        other.span.start < other.span.stop ∧ other.span.stop ≤ token.span.start) ∧
      earlier.Pairwise fun first second => first.span.stop ≤ second.span.start := by
  have apart := (Lexer.scanned_apart file (Lexer.start source)).sublist
    (writtenTokens_sublist file source)
  rw [found, List.pairwise_append] at apart
  exact ⟨fun other member => apart.2.2 other member token List.mem_cons_self,
    apart.1.imp fun both => both.2⟩

/-- Only strings and characters have a tail in a further line. -/
theorem literal_of_runsInto {other : Written} (member : other ∈ earlier) {line : Nat}
    (runs : other.RunsInto line) : other.token = .string ∨ other.token = .character := by
  have among : other ∈ writtenTokens file source := by
    rw [found]
    exact List.mem_append_left _ member
  have noComment : other.token ≠ .comment := by
    rw [writtenTokens, Lexer.written_eq_filter] at among
    simpa using (List.mem_filter.1 among).2
  by_contra plain
  have inLine := Lexer.scanned_inLine file _ other
    ((writtenTokens_sublist file source).subset among) noComment
    (fun string => plain (.inl string)) fun character => plain (.inr character)
  have inside := runs.2
  have before := runs.1
  simp only [Position.lt_def, inLine] at inside
  omega

/-- The last of the tokens starts on a line that one of them reaches and none goes beyond. -/
theorem last_line {previous : Written} (last : earlier.getLast? = some previous) {other : Written}
    (member : other ∈ earlier) : other = previous ∨ other.span.stop ≤ previous.span.start := by
  obtain ⟨first, rfl⟩ := List.getLast?_eq_some_iff.1 last
  rcases List.mem_append.1 member with before | here
  · exact .inr ((List.pairwise_append.1 (written_apart found).2).2.2 other before previous
      List.mem_cons_self)
  · exact .inl (List.mem_singleton.1 here)

/-- A token is the first of its line exactly if no token before it starts there. -/
theorem firstOnLine_iff :
    token.firstOnLine = true ↔
      ∀ other ∈ earlier, other.span.start.line ≠ token.span.start.line := by
  have remembered := Lexer.written_firstOnLine found
  cases last : earlier.getLast? with
  | none =>
    rw [List.getLast?_eq_none_iff.1 last] at remembered ⊢
    rw [remembered]
    simp [Lexer.start]
  | some previous =>
    have among : previous ∈ earlier := List.mem_of_getLast? last
    rw [last] at remembered
    simp only [Option.map_some, Option.some_or] at remembered
    rw [remembered, bne_iff_ne, ne_eq, Option.some.injEq]
    constructor
    · intro differs other member same
      rcases last_line found last member with rfl | before
      · exact differs same
      · have apart := written_apart found
        have upper := Position.line_le_of_le before
        have lower := Position.line_le_of_le (apart.1 previous among).2
        have own := line_le_of_lt (apart.1 previous among).1
        have others := line_le_of_lt (apart.1 other member).1
        omega
    · intro none same
      exact none previous among same

/-- The token starts behind the tail of the token before it, on the same line. -/
def FollowsTail (earlier : List Written) (token : Written) : Prop :=
  ∃ previous ∈ earlier.getLast?, (previous.token = .string ∨ previous.token = .character) ∧
    previous.RunsInto token.span.start.line

/-- A token is taken for the first of its line though an earlier one stands there exactly if it follows
the tail of a literal. -/
theorem followsTail_iff :
    FollowsTail earlier token ↔
      token.firstOnLine = true ∧ ∃ other ∈ earlier, other.IsOn token.span.start.line := by
  have apart := written_apart found
  rw [firstOnLine_iff found]
  constructor
  · rintro ⟨previous, last, -, runs⟩
    have among : previous ∈ earlier := List.mem_of_getLast? last
    refine ⟨fun other member same => ?_, previous, among,
      (Written.isOn_iff (apart.1 previous among).1 _).2 (.inr runs)⟩
    have before := runs.1
    rcases last_line found last member with rfl | reached
    · omega
    · have upper := Position.line_le_of_le reached
      have own := line_le_of_lt (apart.1 other member).1
      omega
  · rintro ⟨none, other, member, isOn⟩
    have runs : other.RunsInto token.span.start.line :=
      ((Written.isOn_iff (apart.1 other member).1 _).1 isOn).resolve_left (none other member)
    obtain ⟨previous, last⟩ : ∃ previous, earlier.getLast? = some previous :=
      Option.ne_none_iff_exists'.1 fun empty => by
        rw [List.getLast?_eq_none_iff.1 empty] at member
        cases member
    rcases last_line found last member with rfl | reached
    · exact ⟨other, last, literal_of_runsInto found member runs, runs⟩
    · -- Another token behind the tail would start on this line.
      have among : previous ∈ earlier := List.mem_of_getLast? last
      have lower := line_le_of_lt (Position.lt_of_lt_of_le runs.2 reached)
      have own := line_le_of_lt (apart.1 previous among).1
      have upper := Position.line_le_of_le (apart.1 previous among).2
      exact absurd (Nat.le_antisymm (Nat.le_trans own upper) lower) (none previous among)

/-- What is handed out of a text up to a written token and behind it. -/
theorem visible_around :
    (reader.stream file source).visible =
      Layout.spread {} earlier ++
        ((((Layout.emit {} earlier).2.step token).1.map (·, token.span.atStart)) ++
          (token.token, token.span) :: ((Layout.emit {} earlier).2.step token).2.spread later) := by
  have noComments : ∀ written ∈ writtenTokens file source, written.token ≠ .comment := by
    intro written member
    rw [writtenTokens, Lexer.written_eq_filter] at member
    simpa using (List.mem_filter.1 member).2
  rw [found, List.forall_mem_append, List.forall_mem_cons] at noComments
  have shown : earlier.filter Layout.isShown = earlier :=
    List.filter_eq_self.2 fun written member => by
      simpa [Layout.isShown] using noComments.1 written member
  rw [stream_visible, found, Layout.spread_append, shown,
    Layout.spread_of_written noComments.2.1]

end

namespace Layout

def openings : List (List Token) := [[], [.openBrace], [.openBrace, .closeBrace]]

/-- A token that is not the first of its line opens the block that is due, if any, or leaves it empty,
and does nothing to the others before it is passed. -/
theorem meet_inside {written : Written} (inside : written.firstOnLine = false) (layout : Layout) :
    (layout.meet written).1 ∈ openings := by
  have unaligned : ∀ layout : Layout, layout.align written = ([], layout) := by
    intro layout
    rw [align, inside]
    rfl
  unfold meet openings
  split
  · simp
  · split
    · simp [unaligned]
    · simp only [unaligned]
      split
      · simp
      · split
        · simp
        · simp

theorem closeFor_braces (token : Token) (layout : Layout) :
    ∀ added ∈ (layout.closeFor token).1, added = .closeBrace := by
  have whole : ∀ closes : ImplicitBlock → Bool, ∀ added ∈ (layout.closeWhile closes).1,
      added = .closeBrace := fun closes added member => List.eq_of_mem_replicate member
  unfold closeFor
  split
  · split
    · split
      · exact fun added member => List.mem_singleton.1 member
      · simp
    · simp
  iterate 3
    · split
      · exact whole _
      · simp
  · split
    · exact whole _
    · simp
  · exact whole _
  · simp

end Layout

/-- What layout adds in front of a token within a line: it opens the block that is due, if any, or
leaves it empty, and closes the blocks that the token closes by what it is. It separates no items and
closes no block for its indentation. -/
def AddsWithinLine (file : FileId) (source : List Char) (earlier : List Written) (token : Written)
    (later : List Written) : Prop :=
  ∃ opened ∈ Layout.openings, ∃ after : Layout,
    let closed := (((Layout.emit {} earlier).2.meet token).2.closeFor token.token).1
    (reader.stream file source).visible =
        Layout.spread {} earlier ++
          ((opened ++ closed).map (·, token.span.atStart) ++
            (token.token, token.span) :: after.spread later) ∧
      .semicolon ∉ opened ++ closed

/-- The flag of a token tells whether it is alone on its line so far, except right behind the tail of a
literal. A token in a line with an earlier one gets no semicolon and closes no block for its
indentation, with the same exception. -/
theorem offside_at_line_starts {earlier later : List Written} {token : Written}
    (found : writtenTokens file source = earlier ++ token :: later) :
    ((token.firstOnLine = true ↔ ∀ other ∈ earlier, ¬other.IsOn token.span.start.line) ↔
        ¬FollowsTail earlier token) ∧
      ((∃ other ∈ earlier, other.IsOn token.span.start.line) → ¬FollowsTail earlier token →
        AddsWithinLine file source earlier token later) := by
  have tail := followsTail_iff found
  constructor
  · have starts : (∀ other ∈ earlier, ¬other.IsOn token.span.start.line) →
        token.firstOnLine = true := by
      intro alone
      refine (firstOnLine_iff found).2 fun other member same => alone other member ?_
      exact (Written.isOn_iff ((written_apart found).1 other member).1 _).2 (.inl same)
    rw [tail]
    push Not
    exact ⟨fun same => same.1, fun none => ⟨none, starts⟩⟩
  · intro shared noTail
    have inside : token.firstOnLine = false := by
      by_contra first
      exact noTail (tail.2 ⟨Bool.of_not_eq_false first, shared⟩)
    have opened := Layout.meet_inside inside (Layout.emit {} earlier).2
    have visible := visible_around found
    rw [Layout.step_eq_meet] at visible
    refine ⟨_, opened, _, visible, ?_⟩
    rw [List.mem_append]
    rintro (member | member)
    · have none : ∀ opened ∈ Layout.openings, .semicolon ∉ opened := by decide
      exact none _ opened member
    · cases Layout.closeFor_braces _ _ _ member

/-- The string runs into the line of the operator, and of the block further on. -/
def splicedLine : List Char := " x = \"a\\\n\" + do y".toList

def splicedString : Written := ⟨.string, ⟨.single, ⟨0, 5⟩, ⟨1, 1⟩⟩, 5, false⟩

def beforeBlock : List Written :=
  [.onLine 0 1 1 .identifier true, .onLine 0 3 1 .equals false, splicedString,
    .onLine 1 2 1 .operatorSymbol true, .onLine 1 4 2 .kwDo false]

theorem splicedString_isOn : splicedString.IsOn 1 := by
  refine ⟨0, by decide, ?_⟩
  rw [Position.lt_def]
  decide

theorem offside_behind_spliced_string :
    let token : Written := .onLine 1 7 1 .identifier false
    let later : List Written := [.onLine 1 8 0 .endOfInput false]
    writtenTokens .single splicedLine = beforeBlock ++ token :: later ∧
      (∃ other ∈ beforeBlock, other.IsOn token.span.start.line) ∧
      ¬FollowsTail beforeBlock token ∧
      (token.firstOnLine = true ↔ ∀ other ∈ beforeBlock, ¬other.IsOn token.span.start.line) ∧
      AddsWithinLine .single splicedLine beforeBlock token later := by
  have found : writtenTokens .single splicedLine =
      beforeBlock ++ .onLine 1 7 1 .identifier false :: [.onLine 1 8 0 .endOfInput false] := by
    decide +kernel
  have shared : ∃ other ∈ beforeBlock, other.IsOn 1 :=
    ⟨splicedString, by simp [beforeBlock], splicedString_isOn⟩
  have noTail : ¬FollowsTail beforeBlock (.onLine 1 7 1 .identifier false) := by
    rintro ⟨previous, last, literal, -⟩
    obtain rfl : Written.onLine 1 4 2 .kwDo false = previous := by
      simpa [beforeBlock] using last
    rcases literal with kind | kind
    · cases kind
    · cases kind
  have rule := offside_at_line_starts found
  exact ⟨found, shared, noTail, rule.1.2 noTail, rule.2 shared noTail⟩

/-- The string ends right before the last name, which is still taken for the first token of its line,
so that layout ends the declaration there. -/
theorem literal_tail_starts_line :
    let source := " x = \"a\\\n\"y".toList
    let earlier : List Written :=
      [.onLine 0 1 1 .identifier true, .onLine 0 3 1 .equals false, splicedString]
    let token : Written := .onLine 1 1 1 .identifier true
    writtenTokens .single source = earlier ++ token :: [.onLine 1 2 0 .endOfInput false] ∧
      (¬(token.firstOnLine = true ↔ ∀ other ∈ earlier, ¬other.IsOn token.span.start.line)) ∧
      (∃ other ∈ earlier, other.IsOn token.span.start.line) ∧
      (.semicolon, token.span.atStart) ∈ (reader.stream .single source).visible := by
  refine ⟨by decide +kernel, ?_, ⟨splicedString, by simp, splicedString_isOn⟩, by decide +kernel⟩
  intro same
  exact same.1 rfl splicedString (by simp) splicedString_isOn

end Offside.Haskell
