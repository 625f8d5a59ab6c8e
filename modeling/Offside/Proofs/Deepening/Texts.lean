import Offside.Proofs.Deepening.Readings
import Offside.Proofs.Layout.Seam

/-!
Texts behind a stretch of one line. If the stretch is exchanged for one of another length, what stands
behind it on its line stands in another column, and what stands on the lines below it where it stood.
Two lexers at the same place of the text behind the stretch read the same tokens from there on, in
places that correspond.
-/

namespace Offside

set_option autoImplicit false

open Offside.Lexical

namespace Position

/-- The place in a text whose stretch in front of a place reaches up to another column of the line. -/
def along (start : Position) (column : Nat) (place : Position) : Position :=
  if place.line = start.line then ⟨place.line, place.column - start.column + column⟩ else place

variable {start first second : Position} {column : Nat}

@[simp] theorem line_along (place : Position) : (start.along column place).line = place.line := by
  unfold along
  split <;> rfl

theorem along_inj (one : start ≤ first) (other : start ≤ second) :
    start.along column first = start.along column second ↔ first = second := by
  constructor
  · intro same
    have lines := congrArg Position.line same
    rw [line_along, line_along] at lines
    rw [le_def] at one other
    unfold along at same
    rw [lines] at same one
    obtain ⟨_, _⟩ := first
    obtain ⟨_, _⟩ := second
    simp only at same lines one other ⊢
    split at same
    · simp only [mk.injEq] at same ⊢
      omega
    · exact same
  · exact congrArg _

/-- The next place is on a line of its own or right behind, in both texts. -/
theorem after_along {place : Position} (reached : start ≤ place) (character : Char) :
    (start.along column place).after character = start.along column (place.after character) := by
  rw [le_def] at reached
  unfold after along
  by_cases feed : character = '\n'
  · have below : place.line + 1 ≠ start.line := by omega
    simp only [feed, if_true, if_neg below]
    split <;> rfl
  · simp only [if_neg feed]
    split
    · simp only [mk.injEq, true_and]
      omega
    · rfl

end Position

namespace Span

def along (start : Position) (column : Nat) (span : Span) : Span :=
  ⟨span.file, start.along column span.start, start.along column span.stop⟩

structure LiesBehind (place : Position) (span : Span) : Prop where
  start : place ≤ span.start
  stop : place ≤ span.stop

end Span

namespace Cursor

/-- Two cursors with the same text ahead, behind stretches that end on one line. -/
structure Along (start : Position) (column : Nat) (upper lower : Cursor) : Prop where
  ahead : lower.ahead = upper.ahead
  position : lower.position = start.along column upper.position
  reached : start ≤ upper.position

namespace Along

variable {start : Position} {column : Nat} {upper lower : Cursor}
  (along : Along start column upper lower)

include along

theorem advance : Along start column upper.advance lower.advance := by
  have same := along.ahead
  unfold Cursor.advance
  cases found : upper.ahead with
  | nil =>
    rw [found] at same
    simp only [same]
    exact along
  | cons character rest =>
    rw [found] at same
    simp only [same]
    exact
      { ahead := rfl
        position := by
          rw [along.position]
          exact Position.after_along along.reached character
        reached := Position.le_trans along.reached (Position.le_after upper.position character) }

theorem skip (count : Nat) : Along start column (upper.skip count) (lower.skip count) := by
  induction count generalizing upper lower with
  | zero => exact along
  | succ count induction => exact induction along.advance

theorem skipWhile (accepts : Char → Bool) :
    Along start column (upper.skipWhile accepts) (lower.skipWhile accepts) := by
  unfold Cursor.skipWhile
  rw [along.ahead]
  exact along.skip _

theorem spanAhead (file : FileId) (width : Nat) :
    Lexical.spanAhead file lower width =
      (Lexical.spanAhead file upper width).along start column := by
  unfold Lexical.spanAhead
  rw [along.position, (along.skip width).position]
  rfl

end Along

end Cursor

namespace Haskell

structure Written.Along (start : Position) (column : Nat) (upper lower : Written) : Prop where
  token : lower.token = upper.token
  span : lower.span = upper.span.along start column
  firstOnLine : lower.firstOnLine = upper.firstOnLine
  behind : upper.span.LiesBehind start

namespace Lexer

/-- Two lexers with the same text ahead, behind stretches that end on one line. They remember the same
of what they read, in the places that correspond. -/
structure Along (start : Position) (column : Nat) (upper lower : Lexer) : Prop where
  cursor : Cursor.Along start column upper.cursor lower.cursor
  lastLine : lower.lastLine = upper.lastLine
  properEnd : lower.properEnd = upper.properEnd.map (start.along column)
  behind : ∀ place ∈ upper.properEnd, start ≤ place

namespace Along

variable {start : Position} {column : Nat} {upper lower : Lexer}
  (along : Along start column upper lower)

include along

theorem place : Cursor.Along start column upper.place lower.place :=
  along.cursor.skipWhile _

theorem nextScan : lower.nextScan = upper.nextScan := by
  have touches : (lower.properEnd == some lower.place.position) =
      (upper.properEnd == some upper.place.position) := by
    rw [along.properEnd, along.place.position, Bool.eq_iff_iff, beq_iff_eq, beq_iff_eq]
    cases found : upper.properEnd with
    | none => simp
    | some place =>
      simp only [Option.map_some, Option.some.injEq]
      exact Position.along_inj (along.behind place found) along.place.reached
  rw [Lexer.nextScan, Lexer.nextScan, touches, along.place.ahead]

theorem nextText : lower.nextText = upper.nextText := by
  rw [Lexer.nextText, Lexer.nextText, along.nextScan, along.place.ahead]

theorem nextWritten (file : FileId) :
    Written.Along start column (upper.nextWritten file) (lower.nextWritten file) where
  token := congrArg Scan.token along.nextScan
  span := by
    change spanAhead file lower.place lower.nextScan.width = _
    rw [along.nextScan, along.place.spanAhead]
    rfl
  firstOnLine := by
    change (lower.lastLine != some lower.place.position.line) = _
    rw [along.lastLine, along.place.position, Position.line_along]
    rfl
  behind := ⟨along.place.reached, (along.place.skip _).reached⟩

theorem pastNext : Along start column upper.pastNext lower.pastNext := by
  have after := along.place.skip upper.nextScan.width
  refine ⟨?_, ?_, ?_, ?_⟩
  · rw [cursor_pastNext, cursor_pastNext, along.nextScan]
    exact after
  · unfold Lexer.pastNext
    rw [along.nextScan]
    split
    · exact along.lastLine
    · simp only [along.place.position, Position.line_along]
  · unfold Lexer.pastNext
    rw [along.nextScan]
    split
    · exact along.properEnd
    · simp only
      split
      · rw [after.position, Option.map_some]
      · rfl
  · intro place ends
    unfold Lexer.pastNext at ends
    split at ends
    · exact along.behind place ends
    · simp only at ends
      split at ends
      · cases ends
        exact after.reached
      · cases ends

theorem visits : List.Forall₂ (Along start column) upper.visits lower.visits := by
  fun_induction Lexer.visits upper generalizing lower with
  | case1 upper ended =>
    have endedLower : lower.nextScan.token = .endOfInput := by rw [along.nextScan, ended]
    rw [visits_of_ended endedLower]
    exact .cons along .nil
  | case2 upper inner shorter induction =>
    have innerLower : lower.nextScan.token ≠ .endOfInput := by
      rw [along.nextScan]
      exact inner
    rw [visits_of_inner innerLower]
    exact .cons along (induction along.pastNext)

end Along

end Lexer

end Haskell

end Offside

/-!
Layout of a text with a longer qualifier. Layout adds nothing inside a qualifier, and what it adds
behind one depends on the columns there, which a longer qualifier shifts. Where it adds the same
nevertheless, what is handed out of both texts differs in the tokens of the qualifier and in the columns
behind them.
-/

namespace Offside.Haskell

set_option autoImplicit false

open Offside.Lexical

namespace Layout

def additions : Layout → List Written → List (List Token)
  | _, [] => []
  | layout, written :: later =>
    if written.token = .comment then [] :: layout.additions later
    else (layout.step written).1 :: (layout.step written).2.additions later

abbrev past (layout : Layout) (tokens : List Written) : Layout :=
  (layout.emit (tokens.filter isShown)).2

variable {layout : Layout} {written : Written} {tokens : List Written}

theorem additions_of_comment (comment : written.token = .comment) (layout : Layout)
    (later : List Written) : layout.additions (written :: later) = [] :: layout.additions later := by
  rw [additions, if_pos comment]

theorem additions_of_written (other : written.token ≠ .comment) (layout : Layout)
    (later : List Written) :
    layout.additions (written :: later) =
      (layout.step written).1 :: (layout.step written).2.additions later := by
  rw [additions, if_neg other]

theorem past_of_comment (comment : written.token = .comment) (layout : Layout)
    (later : List Written) : layout.past (written :: later) = layout.past later := by
  rw [past, List.filter_cons_of_neg (by simp [isShown, comment])]

theorem past_of_written (other : written.token ≠ .comment) (layout : Layout)
    (later : List Written) :
    layout.past (written :: later) = (layout.step written).2.past later := by
  rw [past, List.filter_cons_of_pos (by simpa [isShown] using other), emit_cons]

theorem length_additions (layout : Layout) (tokens : List Written) :
    (layout.additions tokens).length = tokens.length := by
  induction tokens generalizing layout with
  | nil => rfl
  | cons written later induction =>
    unfold additions
    split <;> simp [induction]

theorem additions_append (layout : Layout) (first second : List Written) :
    layout.additions (first ++ second) =
      layout.additions first ++ (layout.past first).additions second := by
  induction first generalizing layout with
  | nil => rfl
  | cons written first induction =>
    by_cases comment : written.token = .comment
    · rw [List.cons_append, additions_of_comment comment, additions_of_comment comment, induction,
        past_of_comment comment, List.cons_append]
    · rw [List.cons_append, additions_of_written comment, additions_of_written comment, induction,
        past_of_written comment, List.cons_append]

theorem past_idle (idle : layout.Idle) (tokens : List Written) : (layout.past tokens).Idle := by
  induction tokens generalizing layout with
  | nil => exact idle
  | cons written later induction =>
    by_cases comment : written.token = .comment
    · rw [past_of_comment comment]
      exact induction idle
    · rw [past_of_written comment]
      refine induction fun notStarted => ?_
      rw [step_started] at notStarted
      cases notStarted

/-- Between two tokens of a line a segment or a dot changes nothing. -/
theorem step_inLine (started : layout.started = true) (due : layout.opener = none)
    (inLine : written.firstOnLine = false)
    (kind : written.token = .properIdentifier ∨ written.token = .dot) :
    layout.step written = ([], layout) := by
  obtain ⟨blocks, opener, isStarted, depth⟩ := layout
  obtain rfl : isStarted = true := started
  obtain rfl : opener = none := due
  have met : (⟨blocks, none, true, depth⟩ : Layout).meet written = ([], ⟨blocks, none, true, depth⟩) := by
    simp [meet, align, inLine]
  rw [step_eq_meet, met]
  rcases kind with proper | dot
  · rw [proper]
    rfl
  · rw [dot]
    rfl

/-- Inside a qualifier layout adds nothing. -/
theorem inLine_run (started : layout.started = true) (due : layout.opener = none)
    (inLine : ∀ written ∈ tokens, written.firstOnLine = false)
    (kinds : ∀ written ∈ tokens, written.token = .properIdentifier ∨ written.token = .dot)
    (later : List Written) :
    layout.spread (tokens ++ later) = tokens.map Written.located ++ layout.spread later ∧
      layout.additions (tokens ++ later) =
        List.replicate tokens.length [] ++ layout.additions later := by
  induction tokens with
  | nil => exact ⟨rfl, rfl⟩
  | cons written tokens induction =>
    rw [List.forall_mem_cons] at inLine kinds
    obtain ⟨spread, additions⟩ := induction inLine.2 kinds.2
    have other : written.token ≠ .comment := by
      rcases kinds.1 with kind | kind <;> rw [kind] <;> decide
    rw [List.cons_append, spread_of_written other, additions_of_written other,
      step_inLine started due inLine.1 kinds.1, spread, additions]
    exact ⟨rfl, rfl⟩

/-- If layout adds the same to tokens in corresponding places, what is handed out corresponds. -/
theorem spread_along {start : Position} {column : Nat} {other : Layout} {uppers lowers : List Written}
    (along : List.Forall₂ (Written.Along start column) uppers lowers)
    (same : other.additions lowers = layout.additions uppers) :
    other.spread lowers = (layout.spread uppers).map (Prod.map id (Span.along start column)) := by
  induction along generalizing layout other with
  | nil => rfl
  | @cons upper lower uppers lowers one _ induction =>
    have own := one.token
    by_cases comment : upper.token = .comment
    · have comment' : lower.token = .comment := own.trans comment
      rw [additions_of_comment comment, additions_of_comment comment', List.cons.injEq] at same
      rw [spread_of_comment comment, spread_of_comment comment', induction same.2, own, one.span]
      rfl
    · have comment' : lower.token ≠ .comment := by rwa [own]
      rw [additions_of_written comment, additions_of_written comment', List.cons.injEq] at same
      rw [spread_of_written comment, spread_of_written comment', induction same.2, own, one.span,
        same.1, List.map_append, List.map_map, List.map_cons]
      rfl

end Layout

def addedTokens (file : FileId) (source : List Char) : List (List Token) :=
  Layout.additions {} (scannedTokens file source)

/-- Layout adds the same to two texts, of which the second has further tokens behind the one at a place,
and nothing to these. -/
def KeepsLayout (file : FileId) (place : Span) (further : Nat) (source other : List Char) : Prop :=
  let reached := (scannedTokens file source).findIdx (·.span = place) + 1
  addedTokens file other = (addedTokens file source).take reached ++ List.replicate further [] ++
    (addedTokens file source).drop reached

instance (file : FileId) (place : Span) (further : Nat) (source other : List Char) :
    Decidable (KeepsLayout file place further source other) :=
  inferInstanceAs (Decidable (_ = _))

/-!
A text and the same text with a deeper qualifier. Up to the qualifier both are read alike, the tokens of
the qualifier are its segments and dots, and behind it both are read alike once more, the second in
other columns.
-/

/-- A qualifier of one segment in a text, and the lexer in front of it. -/
structure Fork (front qualifier back : List Char) (fork : Lexer) : Prop where
  spelled : Core.isConstructorText qualifier = true
  qualifying : qualifies back = true
  reached : fork ∈ (Lexer.start (front ++ (dotted [qualifier] ++ back))).visits
  here : fork.place.ahead = dotted [qualifier] ++ back
  sound : ∀ visit ∈ (Lexer.start (front ++ (dotted [qualifier] ++ back))).visits,
    visit.nextScan.defect = none
  /-- No number touches the qualifier. -/
  apart : ∀ visit ∈ (Lexer.start (front ++ (dotted [qualifier] ++ back))).visits,
    visit.pastNext.cursor.ahead = dotted [qualifier] ++ back → isNumber visit.nextScan.token = false

theorem dotted_inLine {segments : List (List Char)}
    (spelled : ∀ segment ∈ segments, Core.isConstructorText segment = true) :
    '\n' ∉ dotted segments := by
  intro member
  obtain ⟨segment, among, inside⟩ := List.mem_flatMap.1 member
  rcases List.mem_append.1 inside with inside | dot
  · exact Core.constructor_inLine (spelled segment among) inside
  · cases List.mem_singleton.1 dot

namespace Lexer.Reads

variable {segments : List (List Char)} {back : List Char} {lexer final : Lexer}
  {others : List Lexer} (reads : lexer.Reads segments others final)
  (ahead : lexer.place.ahead = dotted segments ++ back)

include reads ahead

theorem ahead_final : final.cursor.ahead = back := by
  rw [reads.cursor, Cursor.ahead_skip, ahead, List.drop_left]

theorem position_final :
    final.cursor.position = lexer.place.position.afterAll (dotted segments) := by
  rw [reads.cursor, Cursor.position_skip, ahead, List.take_left]

theorem line_final (spelled : ∀ segment ∈ segments, Core.isConstructorText segment = true) :
    final.cursor.position.line = lexer.place.position.line := by
  rw [reads.position_final ahead]
  exact Position.line_afterAll (dotted_inLine spelled) _

end Lexer.Reads

structure Deepened (front qualifier back : List Char) (segments : List (List Char))
    (fork : Lexer) where
  fronts : List Lexer
  fronts' : List Lexer
  fork' : Lexer
  others : List Lexer
  others' : List Lexer
  final : Lexer
  final' : Lexer
  visits : (Lexer.start (front ++ (dotted [qualifier] ++ back))).visits =
    fronts ++ fork :: (others ++ final.visits)
  visits' : (Lexer.start (front ++ (dotted segments ++ back))).visits =
    fronts' ++ fork' :: (others' ++ final'.visits)
  alike : List.Forall₂ Lexer.Resembles fronts fronts'
  inner : ∀ visit ∈ fronts, visit.nextScan.token ≠ .endOfInput
  reads : fork.Reads [qualifier] others final
  reads' : fork'.Reads segments others' final'
  place : fork'.place = fork.place.facing (dotted segments ++ back)
  lastLine : fork'.lastLine = fork.lastLine
  along : final.Along final.cursor.position final'.cursor.position.column final'

theorem Fork.deepened {front qualifier back : List Char} {fork : Lexer}
    (forked : Fork front qualifier back fork) {segments : List (List Char)} (some : segments ≠ [])
    (spelled : ∀ segment ∈ segments, Core.isConstructorText segment = true) :
    Nonempty (Deepened front qualifier back segments fork) := by
  have own : ∀ segment ∈ [qualifier], Core.isConstructorText segment = true := by
    simpa using forked.spelled
  have capital : ∀ {segments : List (List Char)}, segments ≠ [] →
      (∀ segment ∈ segments, Core.isConstructorText segment = true) →
      IsCapital (dotted segments ++ back) := by
    intro segments some spelled
    obtain ⟨segment, later, rfl⟩ := List.exists_cons_of_ne_nil some
    rw [dotted_cons, List.append_assoc]
    exact capital_of_constructor (spelled segment List.mem_cons_self) _
  obtain ⟨fronts, fronts', fork', visits, visits', alike, inner, place, lastLine⟩ :=
    Lexer.visits_facing (capital (List.cons_ne_nil _ _) own) (capital some spelled)
      (Lexer.start (front ++ (dotted [qualifier] ++ back))) rfl forked.reached forked.here
      forked.sound forked.apart
  have ahead' : fork'.place.ahead = dotted segments ++ back := by
    rw [place]
    rfl
  obtain ⟨others, final, reads⟩ :=
    Lexer.exists_reads (List.cons_ne_nil _ _) back own forked.qualifying fork forked.here
  obtain ⟨others', final', reads'⟩ :=
    Lexer.exists_reads some back spelled forked.qualifying fork' ahead'
  rw [reads.visits] at visits
  have start : Lexer.start (front ++ (dotted segments ++ back)) =
      (Lexer.start (front ++ (dotted [qualifier] ++ back))).facing
        (front ++ (dotted segments ++ back)) := rfl
  rw [← start, reads'.visits] at visits'
  have line : final'.cursor.position.line = final.cursor.position.line := by
    rw [reads.line_final forked.here own, reads'.line_final ahead' spelled, place]
    rfl
  have position : final'.cursor.position =
      final.cursor.position.along final'.cursor.position.column final.cursor.position := by
    rw [Position.along, if_pos rfl, Nat.sub_self, Nat.zero_add, ← line]
  refine ⟨⟨fronts, fronts', fork', others, others', final, final', visits, visits', alike, inner,
    reads, reads', place, lastLine, ⟨⟨?_, position, Position.le_refl _⟩, ?_, ?_, ?_⟩⟩⟩
  · rw [reads.ahead_final forked.here, reads'.ahead_final ahead']
  · rw [reads.lastLine, reads'.lastLine, line]
  · rw [reads.properEnd, reads'.properEnd]
    rfl
  · simp [reads.properEnd]

theorem length_tower (file : FileId) (start : Position) (segments : List (List Char)) :
    (tower file start segments).length = 2 * segments.length := by
  induction segments generalizing start with
  | nil => rfl
  | cons segment later induction =>
    simp only [tower, List.length_cons, induction]
    omega

theorem tower_kinds (file : FileId) (start : Position) (segments : List (List Char)) :
    ∀ found ∈ tower file start segments, found.1 = .properIdentifier ∨ found.1 = .dot := by
  induction segments generalizing start with
  | nil => nofun
  | cons segment later induction =>
    exact List.forall_mem_cons.2 ⟨.inl rfl, List.forall_mem_cons.2 ⟨.inr rfl, induction _⟩⟩

/-- Whatever stands in a stream is a token of the text or was added in front of one. -/
theorem Layout.mem_spread_at {found : Token × Span} {tokens : List Written} (layout : Layout)
    (member : found ∈ layout.spread tokens) : ∃ written ∈ tokens, found = written.located ∨
      Layout.isAdded found.1 = true ∧ found.2 = written.span.atStart := by
  induction tokens generalizing layout with
  | nil => cases member
  | cons written later induction =>
    have further : ∀ layout : Layout, found ∈ layout.spread later →
        ∃ other ∈ written :: later, found = other.located ∨
          Layout.isAdded found.1 = true ∧ found.2 = other.span.atStart := by
      intro layout member
      obtain ⟨other, among, kind⟩ := induction layout member
      exact ⟨other, List.mem_cons_of_mem _ among, kind⟩
    by_cases comment : written.token = .comment
    · rw [Layout.spread_of_comment comment] at member
      rcases List.mem_cons.1 member with rfl | member
      · exact ⟨written, List.mem_cons_self, .inl rfl⟩
      · exact further layout member
    · rw [Layout.spread_of_written comment] at member
      rcases List.mem_append.1 member with before | member
      · obtain ⟨token, among, rfl⟩ := List.mem_map.1 before
        exact ⟨written, List.mem_cons_self,
          .inr ⟨Layout.step_added written layout token among, rfl⟩⟩
      · rcases List.mem_cons.1 member with rfl | member
        · exact ⟨written, List.mem_cons_self, .inl rfl⟩
        · exact further _ member

namespace Lexer.Reads

variable {segments : List (List Char)} {lexer final : Lexer} {others : List Lexer}
  (reads : lexer.Reads segments others final) (file : FileId)

include reads

theorem length_others : others.length + 1 = 2 * segments.length := by
  have lengths := congrArg List.length (reads.located .single)
  rwa [List.length_map, List.length_cons, length_tower] at lengths

theorem kinds : ∀ visit ∈ lexer :: others,
    (visit.nextWritten file).token = .properIdentifier ∨ (visit.nextWritten file).token = .dot := by
  intro visit member
  refine tower_kinds file lexer.place.position segments (visit.nextWritten file).located ?_
  rw [← reads.located file]
  exact List.mem_map_of_mem (f := fun visit => (visit.nextWritten file).located) member

theorem proper : (lexer.nextWritten file).token = .properIdentifier := by
  have located := reads.located file
  cases segments with
  | nil => cases located
  | cons segment later =>
    rw [tower, List.map_cons, List.cons.injEq] at located
    exact congrArg Prod.fst located.1

/-- What is handed out of a qualifier, and what layout adds to it, if it adds anything in front. -/
theorem handed {layout : Layout} (idle : layout.Idle) (later : List Written) :
    let added := (layout.step (lexer.nextWritten file)).1
    let after := (layout.step (lexer.nextWritten file)).2
    layout.spread ((lexer :: others).map (nextWritten file) ++ later) =
        added.map (·, .point lexer.place.position file) ++
          (tower file lexer.place.position segments ++ after.spread later) ∧
      layout.additions ((lexer :: others).map (nextWritten file) ++ later) =
        added :: (List.replicate (2 * segments.length - 1) [] ++ after.additions later) := by
  intro added after
  have proper := reads.proper file
  have other : (lexer.nextWritten file).token ≠ .comment := by rw [proper]; decide
  have due : after.opener = none := by
    rw [Layout.step_opener _ idle, proper]
    rfl
  obtain ⟨spread, additions⟩ := @Layout.inLine_run after (others.map (nextWritten file))
    (Layout.step_started _ _) due
    (List.forall_mem_map.2 fun visit member => (reads.inLine visit member).firstOnLine file)
    (List.forall_mem_map.2 fun visit member => reads.kinds file visit (List.mem_cons_of_mem _ member))
    later
  have count := reads.length_others
  rw [List.map_cons, List.cons_append, Layout.spread_of_written other,
    Layout.additions_of_written other]
  constructor
  · rw [spread, ← reads.located file, List.map_map]
    rfl
  · rw [additions, List.length_map, show others.length = 2 * segments.length - 1 by omega]

end Lexer.Reads

namespace Deepened

variable {front qualifier back : List Char} {segments : List (List Char)} {fork : Lexer}
  (deepened : Deepened front qualifier back segments fork) (file : FileId)

def outer : Layout := ({} : Layout).past (deepened.fronts.map (Lexer.nextWritten file))

def layout : Layout := ((deepened.outer file).step (fork.nextWritten file)).2

def additions : List (List Token) :=
  Layout.additions {} (deepened.fronts.map (Lexer.nextWritten file)) ++
    [((deepened.outer file).step (fork.nextWritten file)).1]

def before : List (Token × Span) :=
  Layout.spread {} (deepened.fronts.map (Lexer.nextWritten file)) ++
    ((deepened.outer file).step (fork.nextWritten file)).1.map (·, .point fork.place.position file)

def behind : List (Token × Span) :=
  (deepened.layout file).spread (deepened.final.visits.map (Lexer.nextWritten file))

abbrev move : Span → Span :=
  Span.along deepened.final.cursor.position deepened.final'.cursor.position.column

theorem scanned_eq : scannedTokens file (front ++ (dotted [qualifier] ++ back)) =
    deepened.fronts.map (Lexer.nextWritten file) ++
      ((fork :: deepened.others).map (Lexer.nextWritten file) ++
        deepened.final.visits.map (Lexer.nextWritten file)) := by
  rw [scannedTokens, Lexer.scanned_eq_visits, deepened.visits, List.map_append, List.map_cons,
    List.map_append, List.map_cons, List.cons_append]

/-- The fronts are the same, and at the qualifier the same tokens are added in front. -/
theorem scanned_eq' : scannedTokens file (front ++ (dotted segments ++ back)) =
    deepened.fronts.map (Lexer.nextWritten file) ++
      ((deepened.fork' :: deepened.others').map (Lexer.nextWritten file) ++
        deepened.final'.visits.map (Lexer.nextWritten file)) := by
  have fronts : deepened.fronts'.map (Lexer.nextWritten file) =
      deepened.fronts.map (Lexer.nextWritten file) := by
    have same : ∀ uppers lowers : List Lexer, List.Forall₂ Lexer.Resembles uppers lowers →
        lowers.map (Lexer.nextWritten file) = uppers.map (Lexer.nextWritten file) := by
      intro uppers lowers alike
      induction alike with
      | nil => rfl
      | cons one _ induction => rw [List.map_cons, List.map_cons, one.written file, induction]
    exact same _ _ deepened.alike
  rw [scannedTokens, Lexer.scanned_eq_visits, deepened.visits', List.map_append, fronts,
    List.map_cons, List.map_append, List.map_cons, List.cons_append]

theorem step_fork (layout : Layout) :
    layout.step (deepened.fork'.nextWritten file) = layout.step (fork.nextWritten file) := by
  have same : deepened.fork'.nextWritten file =
      { fork.nextWritten file with span := (deepened.fork'.nextWritten file).span } := by
    have token := (deepened.reads'.proper file).trans (deepened.reads.proper file).symm
    have column : (deepened.fork'.nextWritten file).column = (fork.nextWritten file).column := by
      change deepened.fork'.place.indentation = fork.place.indentation
      rw [deepened.place]
      rfl
    have first : (deepened.fork'.nextWritten file).firstOnLine =
        (fork.nextWritten file).firstOnLine := by
      change (deepened.fork'.lastLine != some deepened.fork'.place.position.line) = _
      rw [deepened.lastLine, deepened.place]
      rfl
    dsimp only
    rw [← token, ← column, ← first]
  rw [same]
  rfl

theorem idle : (deepened.outer file).Idle := Layout.past_idle (fun _ => rfl) _

theorem length_additions : (deepened.additions file).length = deepened.fronts.length + 1 := by
  rw [additions, List.length_append, Layout.length_additions, List.length_map]
  rfl

theorem addedTokens_eq : addedTokens file (front ++ (dotted [qualifier] ++ back)) =
    deepened.additions file ++ ([] :: (deepened.layout file).additions
      (deepened.final.visits.map (Lexer.nextWritten file))) := by
  rw [addedTokens, deepened.scanned_eq, Layout.additions_append, ← outer,
    (deepened.reads.handed file (deepened.idle file) _).2, List.append_cons]
  rfl

theorem addedTokens_eq' : addedTokens file (front ++ (dotted segments ++ back)) =
    deepened.additions file ++ (List.replicate (2 * segments.length - 1) [] ++
      (deepened.layout file).additions
        (deepened.final'.visits.map (Lexer.nextWritten file))) := by
  rw [addedTokens, deepened.scanned_eq', Layout.additions_append, ← outer,
    (deepened.reads'.handed file (deepened.idle file) _).2, deepened.step_fork, List.append_cons]
  rfl

theorem handed : (reader.stream file (front ++ (dotted [qualifier] ++ back))).items.map Lexed.located =
    deepened.before file ++ (tower file fork.place.position [qualifier] ++ deepened.behind file) := by
  rw [stream_located, deepened.scanned_eq, Layout.spread_append, ← Layout.past, ← outer,
    (deepened.reads.handed file (deepened.idle file) _).1, ← List.append_assoc]
  rfl

theorem apart {visit : Lexer} (member : visit ∈ deepened.fronts ∨ visit ∈ deepened.final.visits) :
    visit.place.position ≠ fork.place.position := by
  have increasing := Lexer.scanned_increasing ⟨0⟩
    (Lexer.start (front ++ (dotted [qualifier] ++ back)))
  rw [Lexer.scanned_eq_visits, List.pairwise_map, deepened.visits, List.pairwise_append,
    List.pairwise_cons] at increasing
  obtain ⟨-, ⟨behind, -⟩, before⟩ := increasing
  intro same
  rcases member with member | member
  · have less : visit.place.position < fork.place.position :=
      before visit member fork List.mem_cons_self
    exact Position.lt_irrefl _ (same ▸ less)
  · have less : fork.place.position < visit.place.position :=
      behind visit (List.mem_append_right _ member)
    exact Position.lt_irrefl _ (same ▸ less)

/-- The token in front of which the fork is reached is the only one with its span. -/
theorem findIdx_fork :
    (scannedTokens file (front ++ (dotted [qualifier] ++ back))).findIdx
        (·.span = (fork.nextWritten file).span) = deepened.fronts.length := by
  rw [deepened.scanned_eq]
  have others : ∀ written ∈ deepened.fronts.map (Lexer.nextWritten file),
      ¬(decide (written.span = (fork.nextWritten file).span)) = true := by
    intro written member
    obtain ⟨visit, among, rfl⟩ := List.mem_map.1 member
    intro same
    exact deepened.apart (.inl among) (congrArg Span.start (of_decide_eq_true same))
  rw [List.findIdx_append, List.findIdx_eq_length_of_false (by simpa using others)]
  simp [List.findIdx_cons]

variable {file}

theorem additions_behind (some : segments ≠ [])
    (keeps : KeepsLayout file (fork.nextWritten file).span (2 * (segments.length - 1))
      (front ++ (dotted [qualifier] ++ back)) (front ++ (dotted segments ++ back))) :
    (deepened.layout file).additions (deepened.final'.visits.map (Lexer.nextWritten file)) =
      (deepened.layout file).additions (deepened.final.visits.map (Lexer.nextWritten file)) := by
  obtain ⟨further, count⟩ := Nat.exists_eq_succ_of_ne_zero
    (Nat.ne_of_gt (List.length_pos_iff.2 some))
  have length := deepened.length_additions file
  have dots : 2 * segments.length - 1 = 2 * further + 1 := by omega
  have others : 2 * (segments.length - 1) = 2 * further := by omega
  rw [KeepsLayout, deepened.findIdx_fork, deepened.addedTokens_eq, deepened.addedTokens_eq',
    List.take_left' length, List.drop_left' length, dots, others, List.replicate_succ'] at keeps
  simpa using keeps

theorem handed' (some : segments ≠ [])
    (keeps : KeepsLayout file (fork.nextWritten file).span (2 * (segments.length - 1))
      (front ++ (dotted [qualifier] ++ back)) (front ++ (dotted segments ++ back))) :
    (reader.stream file (front ++ (dotted segments ++ back))).items.map Lexed.located =
      deepened.before file ++ (tower file fork.place.position segments ++
        (deepened.behind file).map (Prod.map id deepened.move)) := by
  have spread := @Layout.spread_along _ deepened.final.cursor.position
    deepened.final'.cursor.position.column _ _ _
    (List.forall₂_map_left_iff.2 (List.forall₂_map_right_iff.2
      (deepened.along.visits.imp fun _ _ along => along.nextWritten file)))
    (deepened.additions_behind some keeps)
  have place : deepened.fork'.place.position = fork.place.position := by
    rw [deepened.place]
    rfl
  rw [stream_located, deepened.scanned_eq', Layout.spread_append, ← Layout.past, ← outer,
    (deepened.reads'.handed file (deepened.idle file) _).1, deepened.step_fork, place,
    ← List.append_assoc]
  exact congrArg (fun rest => _ ++ (_ ++ rest)) spread

end Deepened

end Offside.Haskell
