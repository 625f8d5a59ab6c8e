import Offside.Proofs.Lockstep.Contexts
import Offside.Proofs.Lockstep.Crossing

/-!
What is handed out of two texts, alone and one behind the other. The tokens of the first text are the
same up to the place where its end closes the last block, and those of the second are the same further
down. So the parsers of the first text and of both are on one course up to the seam, and behind it the
parsers of the second text and of both are on another one to the end of input.
-/

namespace Offside

set_option autoImplicit false

open Offside.Lexical

namespace Parser

def shownCount (tokens : List (Token × Span)) : Nat := tokens.countP fun found => found.1 != .comment

namespace Course

variable {course : Course}

/-- A token that the second run may find further down. -/
structure Allows (course : Course) (found : Token × Span) : Prop where
  inner : found.1 ≠ .endOfInput
  texts : found.1.isLookedUp = true →
    course.others (found.2.down course.lines).start = course.texts found.2.start
  admitted : found.2.isPoint = false → course.admits (found.2.down course.lines)

theorem matches_down {found : Token × Span} {comments more : Nat} (fewer : comments ≤ more)
    (texts : found.1.isLookedUp = true →
      course.others (found.2.down course.lines).start = course.texts found.2.start)
    (admitted : found.2.isPoint = false → course.admits (found.2.down course.lines)) :
    course.Matches ⟨comments, found.1, found.2⟩ ⟨more, found.1, found.2.down course.lines⟩ where
  comments := fewer
  token := rfl
  span := Or.inl rfl
  texts := texts
  admitted := by
    rw [Span.isPoint_down]
    exact admitted

/-- The same tokens, which the second run finds further down. -/
theorem goes_down {front firsts seconds : List (Token × Span)} {count : Nat}
    (allowed : ∀ found ∈ front, course.Allows found)
    (later : ∀ comments, course.Goes count (seenOf comments firsts) (seenOf comments seconds))
    (comments : Nat) :
    course.Goes (shownCount front + count) (seenOf comments (front ++ firsts))
      (seenOf comments (front.map (Prod.map id (Span.down course.lines)) ++ seconds)) := by
  induction front generalizing comments with
  | nil =>
    rw [shownCount, List.countP_nil, Nat.zero_add]
    exact later comments
  | cons found front induction =>
    rw [List.forall_mem_cons] at allowed
    rw [List.map_cons, List.cons_append, List.cons_append]
    by_cases comment : found.1 = .comment
    · rw [seenOf, if_pos comment, seenOf, if_pos (show (Prod.map id _ found).1 = _ from comment),
        shownCount, List.countP_cons_of_neg (by simp [comment])]
      exact induction allowed.2 _
    · rw [seenOf_cons comment, seenOf_cons (show (Prod.map id _ found).1 ≠ _ from comment),
        shownCount, List.countP_cons_of_pos (by simpa using comment), Nat.add_right_comm]
      exact .further allowed.1.inner
        (matches_down (Nat.le_refl _) allowed.1.texts allowed.1.admitted)
        (induction allowed.2 0)

theorem goes_to_end {front : List (Token × Span)} {place : Span} (none : course.seam = none)
    (allowed : ∀ found ∈ front, course.Allows found)
    (admitted : place.isPoint = false → course.admits (place.down course.lines)) :
    course.Goes (shownCount front) (seenOf 0 (front ++ [(.endOfInput, place)]))
      (seenOf 0 ((front ++ [(Token.endOfInput, place)]).map
        (Prod.map id (Span.down course.lines)))) := by
  have ended : ∀ comments, course.Goes 0 (seenOf comments [(.endOfInput, place)])
      (seenOf comments [(.endOfInput, place.down course.lines)]) := fun comments =>
    .meets (@Meets.atEnd course ⟨comments, .endOfInput, place⟩
      ⟨comments, .endOfInput, place.down course.lines⟩ none rfl
      (@matches_down _ (.endOfInput, place) _ _ (Nat.le_refl _) (fun lookedUp => by cases lookedUp)
        admitted))
  rw [List.map_append]
  exact goes_down allowed ended 0

/-- The braces by which the blocks inside the first text are closed in both runs, and then the brace and
the separator at the seam. -/
theorem goes_closing {closing : List Token} {final finish start : Span}
    {beyond : List (Token × Span)} {count comments more : Nat}
    (closes : ∀ token ∈ closing, token.isBrace = true) (finalPoint : final.isPoint = true)
    (startPoint : start.isPoint = true) (seam : course.seam = some (count, seenOf 0 beyond))
    (fewer : comments ≤ more) :
    course.Goes closing.length
      (seenOf comments ((closing ++ [Token.closeBrace]).map (·, final) ++ [(.endOfInput, finish)]))
      (seenOf more ((closing ++ [Token.semicolon]).map (·, start) ++ beyond)) := by
  induction closing generalizing comments more with
  | nil => exact .meets (.atSeam seam fewer rfl rfl startPoint)
  | cons brace closing induction =>
    rw [List.forall_mem_cons] at closes
    have shown : brace ≠ .comment := by
      rintro rfl
      cases closes.1
    have inner : brace ≠ .endOfInput := by
      rintro rfl
      cases closes.1
    have last : seenOf comments (((brace :: closing) ++ [Token.closeBrace]).map (·, final) ++
          [(.endOfInput, finish)]) =
        ⟨comments, brace, final⟩ :: seenOf 0 ((closing ++ [Token.closeBrace]).map (·, final) ++
          [(.endOfInput, finish)]) := seenOf_cons shown _ _
    have last' : seenOf more (((brace :: closing) ++ [Token.semicolon]).map (·, start) ++ beyond) =
        ⟨more, brace, start⟩ :: seenOf 0 ((closing ++ [Token.semicolon]).map (·, start) ++
          beyond) := seenOf_cons shown _ _
    rw [last, last']
    refine .further inner ?_ (induction closes.2 (Nat.le_refl 0))
    exact
      { comments := fewer
        token := rfl
        span := Or.inr ⟨closes.1, finalPoint, startPoint⟩
        texts := fun lookedUp => by
          rw [isBrace_of_lookedUp lookedUp] at closes
          cases closes.1
        admitted := fun wide => by
          rw [show start.isPoint = false from wide] at startPoint
          cases startPoint }

end Course

end Parser

namespace Haskell

open Offside.Parser

def handedOut (file : FileId) (source : List Char) : List (Token × Span) :=
  (reader.stream file source).items.map Lexed.located

/-- What is handed out of two texts, alone and joined on the lines one behind the other. The blocks
inside the first text are closed before the second, from which a separator keeps it apart. -/
structure Seam (file : FileId) (first second : List Char) where
  /-- The tokens of the first text, in which the braces that its end adds are left out. -/
  front : List (Token × Span)
  /-- The braces by which its end closes the blocks inside the last one. -/
  closing : List Token
  final : Span
  finish : Span
  /-- The comments before the first token of the second text. -/
  comments : List (Token × Span)
  start : Span
  token : Token × Span
  later : List (Token × Span)
  head : (writtenTokens file second).head?.map Written.located = some token
  closes : ∀ token ∈ closing, token.isBrace = true
  finalPoint : final.isPoint = true
  startPoint : start.isPoint = true
  skipped : ∀ comment ∈ comments, comment.1 = .comment
  shown : token.1 ≠ .comment
  /-- A brace and a token stand in front of what the end adds. -/
  opened : 1 < shownCount front
  counted : (reader.stream file first).inner.length = shownCount front + closing.length + 1
  first_eq : handedOut file first =
    front ++ ((closing ++ [Token.closeBrace]).map (·, final) ++ [(Token.endOfInput, finish)])
  second_eq : handedOut file second = comments ++ (Token.openBrace, start) :: token :: later
  joined_eq : handedOut file (first ++ '\n' :: second) =
    front ++ (comments.map (Prod.map id (Span.down (first.count '\n' + 1))) ++
      ((closing ++ [Token.semicolon]).map (·, start.down (first.count '\n' + 1)) ++
        (token :: later).map (Prod.map id (Span.down (first.count '\n' + 1)))))

theorem isPoint_atStart (span : Span) : span.atStart.isPoint = true := by
  simp [Span.atStart, Span.isPoint, Span.point]

/-- What a parser has to pass of a text is what layout makes of the tokens before the end. -/
theorem tokens_before_end {file : FileId} {source : List Char} {inner : List Written}
    {final : Written} (split : scannedTokens file source = inner ++ [final])
    (ended : final.token = .endOfInput) :
    writtenTokens file source = inner.filter Layout.isShown ++ [final] ∧
      (reader.stream file source).inner.map Prod.fst =
        (Layout.emit {} (inner.filter Layout.isShown)).1 ++
          (Layout.step final (Layout.emit {} (inner.filter Layout.isShown)).2).1 := by
  obtain ⟨place, visible⟩ := visible_split file source
  have tokens := stream_tokens file source
  have written : writtenTokens file source = inner.filter Layout.isShown ++ [final] := by
    rw [writtenTokens, Lexer.written_eq_filter]
    change (scannedTokens file source).filter Layout.isShown = _
    rw [split, List.filter_append, List.filter_cons_of_pos (by simp [Layout.isShown, ended]),
      List.filter_nil]
  rw [visible, written, Layout.emit_append, Layout.emit_cons, List.map_append, ended] at tokens
  refine ⟨written, ?_⟩
  refine @List.append_cancel_right _ _ [.endOfInput] _ ?_
  rw [List.append_assoc]
  exact tokens

theorem shownCount_spread (layout : Layout) (tokens : List Written) :
    shownCount (layout.spread tokens) =
      (layout.emit (tokens.filter Layout.isShown)).1.length := by
  induction tokens generalizing layout with
  | nil => rfl
  | cons written later induction =>
    by_cases comment : written.token = .comment
    · rw [Layout.spread_of_comment comment, shownCount,
        List.countP_cons_of_neg (by simp [comment]),
        List.filter_cons_of_neg (by simp [Layout.isShown, comment])]
      exact induction layout
    · have added : shownCount ((layout.step written).1.map (·, written.span.atStart)) =
          (layout.step written).1.length := by
        rw [shownCount, List.countP_map, List.countP_eq_length]
        intro token member
        have kind := Layout.step_added written layout token member
        cases token with
        | comment => cases kind
        | _ => rfl
      have later := induction (layout.step written).2
      rw [shownCount] at added later
      rw [Layout.spread_of_written comment, shownCount, List.countP_append, added,
        List.countP_cons_of_pos (by simpa using comment), later,
        List.filter_cons_of_pos (by simpa [Layout.isShown] using comment), Layout.emit_cons,
        List.length_append, List.length_cons]

/-- Two texts that start at the margin, of which the first is read without a report and has all brackets
nested. -/
theorem exists_seam {file : FileId} {first second : List Char}
    (firstStarts : StartsAtMargin file first) (secondStarts : StartsAtMargin file second)
    (silent : reportsOf (sourceReadings file first) = [])
    (nested : nestAll [] ((reader.stream file first).inner.map Prod.fst) = some []) :
    Nonempty (Seam file first second) := by
  obtain ⟨⟨inner, final, split, ended, others, joined⟩, -⟩ := read_joined silent second
  obtain ⟨-, opening, -, -, -, -, head, openingMargin, openingNotModule⟩ := firstStarts.split
  obtain ⟨comments, written, later, secondSplit, skipped, shown, secondHead, margin, notModule⟩ :=
    secondStarts.split
  obtain ⟨shownFirst, tokens⟩ := tokens_before_end split ended
  have starts : (inner.filter Layout.isShown).head? = some opening := by
    rw [shownFirst] at head
    cases found : inner.filter Layout.isShown with
    | nil =>
      rw [found] at head
      cases head
      exact absurd ended openingMargin.inner
    | cons next others =>
      rw [found] at head
      exact head
  have count := shownCount_spread {} inner
  have opened : 1 < shownCount (Layout.spread {} inner) := by
    obtain ⟨rest, cut⟩ := List.head?_eq_some_iff.1 starts
    rw [count, cut, Layout.emit_cons, Layout.step_first openingMargin openingNotModule]
    simp
  rw [tokens] at nested
  obtain ⟨closing, closes, closed, separated⟩ := Layout.emit_seam starts openingMargin
    openingNotModule (fun written member => others written (List.mem_of_mem_filter member)) ended
    nested margin
  have finalShown : final.token ≠ .comment := by simp [ended]
  have skippedBelow : ∀ comment ∈ comments.map (Written.down (first.count '\n' + 1)),
      comment.token = .comment := by
    intro comment member
    obtain ⟨own, among, rfl⟩ := List.mem_map.1 member
    exact skipped own among
  have shownBelow : (written.down (first.count '\n' + 1)).token ≠ .comment := shown
  have below : Layout.step (written.down (first.count '\n' + 1)) =
      Layout.step written := rfl
  exact
    ⟨{ front := Layout.spread {} inner
       closing
       final := final.span.atStart
       finish := final.span
       comments := comments.map Written.located
       start := written.span.atStart
       token := written.located
       later := (Layout.onGround.openFor written.token).spread later
       head := by rw [secondHead, Option.map_some]
       closes
       finalPoint := isPoint_atStart _
       startPoint := isPoint_atStart _
       skipped := by
         intro comment member
         obtain ⟨own, among, rfl⟩ := List.mem_map.1 member
         exact skipped own among
       shown := shown
       opened
       counted := by
         have lengths := congrArg List.length tokens
         rw [List.length_map, closed, List.length_append, List.length_append, List.length_singleton,
           ← count] at lengths
         exact lengths
       first_eq := by
         rw [handedOut, stream_located, split, Layout.spread_append,
           Layout.spread_of_written finalShown, closed, ended]
         rfl
       second_eq := by
         rw [handedOut, stream_located, secondSplit, Layout.spread_comments skipped,
           Layout.spread_of_written shown, Layout.step_first margin notModule]
         rfl
       joined_eq := by
         rw [handedOut, stream_located, joined, Layout.spread_append, secondSplit, List.map_append,
           List.map_cons, Layout.spread_comments skippedBelow,
           Layout.spread_of_written shownBelow, below, separated, Layout.spread_down,
           List.map_map, List.map_map, List.map_cons]
         rfl }⟩

theorem handedOut_split {file : FileId} {source : List Char} {before : List (Token × Span)}
    {last : Token × Span} (split : handedOut file source = before ++ [last]) :
    (∀ found ∈ before, found.1 ≠ .endOfInput) ∧ last.1 = .endOfInput := by
  obtain ⟨inner, final, items, ended, others⟩ := Reader.items_split (reader.start source)
  have whole : handedOut file source = inner.map Lexed.located ++ [final.located] := by
    have items : (reader.stream file source).items = inner ++ [final] := items
    rw [handedOut, items, List.map_append, List.map_singleton]
  rw [split] at whole
  obtain ⟨rfl, same⟩ := List.append_inj' whole rfl
  rw [List.singleton_inj] at same
  constructor
  · intro found member
    obtain ⟨item, among, rfl⟩ := List.mem_map.1 member
    simpa [Lexed.isFinal, Lexed.located] using others item among
  · rw [same]
    simpa [Lexed.isFinal, Lexed.located] using ended

theorem Lexed.down_zero (item : Lexed) : item.down 0 = item := by
  simp [Lexed.down, Span.down, Position.down]

/-- Every token of some width stands within the lines of its text. -/
theorem line_handedOut_le {file : FileId} {source : List Char} {found : Token × Span}
    (member : found ∈ handedOut file source) (wide : found.2.isPoint = false) :
    found.2.stop.line ≤ source.count '\n' := by
  have scanned : found ∈ (scannedTokens file source).map Written.located := by
    have widths := Lexer.scanned_wide file (Lexer.start source)
    have same := congrArg (found ∈ ·) (Layout.spread_wide widths {})
    simp only [List.mem_filter, wide, Bool.not_false, and_true, eq_iff_iff] at same
    rw [handedOut, stream_located] at member
    exact (same.1 member).1
  rw [scannedTokens, Lexer.scanned_eq_visits, List.map_map] at scanned
  obtain ⟨lexer, visit, rfl⟩ := List.mem_map.1 scanned
  have step : ∀ lexer, Lexer.Passed source lexer → Lexer.Passed source lexer.pastNext :=
    fun _ => Lexer.Passed.pastNext
  have passed := Lexer.mem_visits step _ (Lexer.passed_start source) lexer visit
  have stands := (passed.stands.skipWhile Text.isBlank).skip lexer.nextScan.width
  change (lexer.place.skip lexer.nextScan.width).position.line ≤ _
  change (lexer.place.skip lexer.nextScan.width).Stands source at stands
  generalize lexer.place.skip lexer.nextScan.width = last at stands
  have text : last.behind.reverse ++ last.ahead = source := stands.text
  rw [stands.position, Position.line_afterAll_eq, ← text, List.count_append]
  change 0 + _ ≤ _
  omega

/-- What is recorded of a token that a grammar looks up is recorded of it in another text that has the
same tokens further down. -/
theorem recorded_down {file : FileId} {source other : List Char} {lines : Nat} {found : Token × Span}
    (shared : ∀ reading ∈ sourceReadings file source, reading.token ≠ .endOfInput →
      reading.down lines ∈ sourceReadings file other)
    (member : found ∈ handedOut file source) (lookedUp : found.1.isLookedUp = true)
    (context : Context) :
    (context.absorbAll (reader.stream file other).items).lexemeAt (found.2.down lines).start =
      (context.absorbAll (reader.stream file source).items).lexemeAt found.2.start := by
  obtain ⟨reading, read, rfl⟩ := read_of_lookedUp member lookedUp
  have inner : reading.token ≠ .endOfInput := by
    intro ended
    rw [show reading.located.1 = .endOfInput from ended] at lookedUp
    cases lookedUp
  have own := lexemeAt_read context read lookedUp
  have others := lexemeAt_read context (shared reading read inner) lookedUp
  refine others.trans (Eq.trans ?_ own.symm)
  rw [Lexed.down, List.head?_map, Option.bind_map]
  rfl

namespace Seam

variable {file : FileId} {first second : List Char}

def firstCourse (seam : Seam file first second) (context : Context) : Course where
  lines := 0
  texts := (context.absorbAll (reader.stream file first).items).lexemeAt
  others := (context.absorbAll (reader.stream file (first ++ '\n' :: second)).items).lexemeAt
  admits span := span.stop.line < first.count '\n' + 1
  seam := some (shownCount seam.front + seam.closing.length,
    seenOf 0 ((seam.token :: seam.later).map
      (Prod.map id (Span.down (first.count '\n' + 1)))))

def secondCourse (_ : Seam file first second) (context : Context) : Course where
  lines := first.count '\n' + 1
  texts := (context.absorbAll (reader.stream file second).items).lexemeAt
  others := (context.absorbAll (reader.stream file (first ++ '\n' :: second)).items).lexemeAt
  admits _ := True
  seam := none

variable (seam : Seam file first second) (context : Context)
  (silent : reportsOf (sourceReadings file first) = [])

include silent

theorem first_goes :
    (seam.firstCourse context).Goes (shownCount seam.front + seam.closing.length)
      (seenOf 0 (handedOut file first))
      (seenOf 0 (handedOut file (first ++ '\n' :: second))) := by
  obtain ⟨-, inner, final, split, ended, joined⟩ := read_joined silent second
  have shared : ∀ reading ∈ sourceReadings file first, reading.token ≠ .endOfInput →
      reading.down 0 ∈ sourceReadings file (first ++ '\n' :: second) := by
    intro reading read other
    rw [Lexed.down_zero, joined]
    rw [split, List.mem_append, List.mem_singleton] at read
    rcases read with read | rfl
    · exact List.mem_append_left _ read
    · exact absurd ended other
  have allowed : ∀ found ∈ seam.front, (seam.firstCourse context).Allows found := by
    intro found member
    have handed : found ∈ handedOut file first := by
      rw [seam.first_eq]
      exact List.mem_append_left _ member
    refine ⟨?_, fun lookedUp => recorded_down shared handed lookedUp context, ?_⟩
    · have split := seam.first_eq
      rw [← List.append_assoc] at split
      exact (handedOut_split split).1 found (List.mem_append_left _ member)
    · intro wide
      exact Nat.lt_succ_of_le (line_handedOut_le handed wide)
  have skipped : ∀ found ∈ seam.comments.map (Prod.map id (Span.down (first.count '\n' + 1))),
      found.1 = .comment := by
    intro found member
    obtain ⟨comment, among, rfl⟩ := List.mem_map.1 member
    exact seam.skipped comment among
  have unmoved : seam.front.map (Prod.map id (Span.down (seam.firstCourse context).lines)) =
      seam.front := List.map_id _
  have later : ∀ comments, (seam.firstCourse context).Goes seam.closing.length
      (seenOf comments ((seam.closing ++ [Token.closeBrace]).map (·, seam.final) ++
        [(.endOfInput, seam.finish)]))
      (seenOf comments (seam.comments.map (Prod.map id (Span.down (first.count '\n' + 1))) ++
        ((seam.closing ++ [Token.semicolon]).map (·, seam.start.down (first.count '\n' + 1)) ++
          (seam.token :: seam.later).map (Prod.map id (Span.down (first.count '\n' + 1)))))) := by
    intro comments
    rw [seenOf_append skipped]
    exact Course.goes_closing seam.closes seam.finalPoint
      (by rw [Span.isPoint_down, seam.startPoint]) rfl (Nat.le_add_right _ _)
  have goes := Course.goes_down allowed later 0
  rwa [unmoved, ← seam.first_eq, ← seam.joined_eq] at goes

theorem second_goes :
    ∃ count, (seam.secondCourse context).Goes count (seenOf 0 (seam.token :: seam.later))
      (seenOf 0 ((seam.token :: seam.later).map
        (Prod.map id (Span.down (first.count '\n' + 1))))) := by
  obtain ⟨-, inner, final, split, ended, joined⟩ := read_joined silent second
  have shared : ∀ reading ∈ sourceReadings file second, reading.token ≠ .endOfInput →
      reading.down (first.count '\n' + 1) ∈ sourceReadings file (first ++ '\n' :: second) := by
    intro reading read _
    rw [joined]
    exact List.mem_append_right _ (List.mem_map_of_mem read)
  have cut : seam.token :: seam.later ≠ [] := List.cons_ne_nil _ _
  have whole := List.dropLast_append_getLast cut
  generalize (seam.token :: seam.later).dropLast = front at whole
  generalize (seam.token :: seam.later).getLast cut = last at whole
  have handed : handedOut file second =
      (seam.comments ++ (Token.openBrace, seam.start) :: front) ++ [last] := by
    rw [seam.second_eq, ← whole, List.append_assoc]
    rfl
  obtain ⟨inside, final⟩ := handedOut_split handed
  have allowed : ∀ found ∈ front, (seam.secondCourse context).Allows found := by
    intro found member
    have among : found ∈ seam.comments ++ (Token.openBrace, seam.start) :: front :=
      List.mem_append_right _ (List.mem_cons_of_mem _ member)
    have member : found ∈ handedOut file second := by
      rw [handed]
      exact List.mem_append_left _ among
    exact ⟨inside found among, fun lookedUp => recorded_down shared member lookedUp context,
      fun _ => trivial⟩
  obtain ⟨token, place⟩ := last
  cases final
  rw [← whole]
  exact ⟨_, Course.goes_to_end rfl allowed fun _ => trivial⟩

end Seam

end Haskell

end Offside
