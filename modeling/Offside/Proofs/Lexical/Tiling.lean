import Offside.Proofs.Layout.Ahead
import Offside.Proofs.Lexical.Finish

/-!
The tokens of a text tile it: none starts before the one in front of it ends, and what no token covers
is trivia, which is blank or joins two lines into one. Tokens without width may stand anywhere between
two others, and the newline token of Python covers a line feed although it ends on the line before.
-/

namespace Offside

set_option autoImplicit false

open Offside.Lexical

namespace Position

theorem le_afterAll (place : Position) (text : List Char) : place ≤ place.afterAll text := by
  induction text generalizing place with
  | nil => exact le_refl place
  | cons character text induction =>
    exact le_trans (le_after place character) (induction (place.after character))

theorem afterAll_lt {front back : List Char} {character : Char} (place : Position) :
    place.afterAll front < place.afterAll (front ++ character :: back) := by
  rw [afterAll_append, afterAll_cons]
  exact lt_of_lt_of_le (lt_after _ character) (le_afterAll _ back)

end Position

/-- A character that may stand between tokens, given the text after it. -/
def Language.isTrivia : Language → Char → List Char → Bool
  | .haskell, character, _ => Text.isBlank character
  | .python, character, rest =>
    Cursor.isIndentation character || character == '\r' || character == '\n' ||
      character == '\\' && decide (0 < lineBreakWidth rest)

/-- Spans that tile a text which starts at a place. A span covers the text that is taken off with it,
even where it does not reach as far as the place behind that text. -/
inductive Tiles (trivia : Char → List Char → Bool) : Position → List Char → List Span → Prop
  | ended (place : Position) : Tiles trivia place [] []
  | between {place : Position} {character : Char} {text : List Char} {spans : List Span}
      (blank : trivia character text = true)
      (later : Tiles trivia (place.after character) text spans) :
      Tiles trivia place (character :: text) spans
  | token {place : Position} {text rest : List Char} {span : Span} {spans : List Span}
      (starts : span.start = place) (forward : place ≤ span.stop)
      (within : span.stop ≤ place.afterAll text)
      (covers : ∀ front character back, text = front ++ character :: back →
        place.afterAll front < span.stop)
      (later : Tiles trivia (place.afterAll text) rest spans) :
      Tiles trivia place (text ++ rest) (span :: spans)

namespace Tiles

variable {trivia : Char → List Char → Bool} {place : Position} {text : List Char}
  {spans : List Span}

theorem bounds (tiles : Tiles trivia place text spans) :
    ∀ span ∈ spans, place ≤ span.start ∧ span.start ≤ span.stop := by
  induction tiles with
  | ended => simp
  | between blank later induction =>
    intro span member
    obtain ⟨behind, forward⟩ := induction span member
    exact ⟨Position.le_trans (Position.le_after _ _) behind, forward⟩
  | token starts forward within covers later induction =>
    rw [List.forall_mem_cons]
    constructor
    · rw [starts]
      exact ⟨Position.le_refl _, forward⟩
    · intro span member
      obtain ⟨behind, forward⟩ := induction span member
      exact ⟨Position.le_trans (Position.le_afterAll _ _) behind, forward⟩

theorem ordered (tiles : Tiles trivia place text spans) :
    spans.Pairwise fun earlier later => earlier.stop ≤ later.start := by
  induction tiles with
  | ended => exact List.Pairwise.nil
  | between blank later induction => exact induction
  | token starts forward within covers later induction =>
    refine List.pairwise_cons.2 ⟨?_, induction⟩
    exact fun span member => Position.le_trans within (later.bounds span member).1

theorem covered (tiles : Tiles trivia place text spans) (front : List Char) (character : Char)
    (back : List Char) (split : text = front ++ character :: back) :
    (∃ span ∈ spans, span.start ≤ place.afterAll front ∧ place.afterAll front < span.stop) ∨
      trivia character back = true := by
  induction tiles generalizing front with
  | ended => simp at split
  | between blank later induction =>
    cases front with
    | nil =>
      cases split
      exact Or.inr blank
    | cons first front =>
      rw [List.cons_append, List.cons.injEq] at split
      obtain ⟨rfl, split⟩ := split
      exact induction front split
  | @token place text rest span spans starts forward within covers later induction =>
    rcases List.append_eq_append_iff.1 split with ⟨middle, rfl, rest⟩ | ⟨middle, text, rest⟩
    · rcases induction middle rest with ⟨span, member, inside⟩ | blank
      · rw [← Position.afterAll_append] at inside
        exact Or.inl ⟨span, List.mem_cons_of_mem _ member, inside⟩
      · exact Or.inr blank
    · cases middle with
      | nil =>
        rw [List.append_nil] at text
        rcases induction [] rest.symm with ⟨span, member, inside⟩ | blank
        · rw [text] at inside
          exact Or.inl ⟨span, List.mem_cons_of_mem _ member, inside⟩
        · exact Or.inr blank
      | cons first middle =>
        rw [List.cons_append, List.cons.injEq] at rest
        obtain ⟨rfl, -⟩ := rest
        refine Or.inl ⟨span, List.mem_cons_self, ?_, covers front _ middle text⟩
        rw [starts]
        exact Position.le_afterAll _ _

theorem blanks {gap : List Char} (blank : ∀ character ∈ gap, ∀ rest, trivia character rest = true)
    (tiles : Tiles trivia (place.afterAll gap) text spans) :
    Tiles trivia place (gap ++ text) spans := by
  induction gap generalizing place with
  | nil => exact tiles
  | cons character gap induction =>
    rw [List.forall_mem_cons] at blank
    exact .between (blank.1 _) (induction blank.2 tiles)

theorem exact_token {front : List Char} {span : Span} (starts : span.start = place)
    (stops : span.stop = place.afterAll front)
    (later : Tiles trivia (place.afterAll front) text spans) :
    Tiles trivia place (front ++ text) (span :: spans) := by
  apply Tiles.token starts _ _ _ later
  · rw [stops]
    exact Position.le_afterAll _ _
  · rw [stops]
    exact Position.le_refl _
  · rintro before character back rfl
    rw [stops]
    exact Position.afterAll_lt place

theorem points {kinds : List Token} {span : Span} (starts : span.start = place)
    (tiles : Tiles trivia place text spans) :
    Tiles trivia place text ((kinds.map fun _ => span.atStart) ++ spans) := by
  induction kinds with
  | nil => exact tiles
  | cons kind kinds induction => exact @exact_token _ _ _ _ [] _ starts starts induction

end Tiles

namespace Cursor

variable {trivia : Char → List Char → Bool} {cursor after : Cursor}

/-- Spans that tile what is ahead of a cursor. -/
def Tiled (trivia : Char → List Char → Bool) (cursor : Cursor) (spans : List Span) : Prop :=
  Tiles trivia cursor.position cursor.ahead spans

theorem tiled_token (file : FileId) (width : Nat) {spans : List Span}
    (tiled : (cursor.skip width).Tiled trivia spans) :
    cursor.Tiled trivia (spanAhead file cursor width :: spans) := by
  have stops := position_skip width cursor
  unfold Tiled at tiled ⊢
  rw [stops, ahead_skip] at tiled
  rw [← List.take_append_drop width cursor.ahead]
  exact .exact_token rfl stops tiled

theorem tiled_skip {count : Nat}
    (blank : ∀ character ∈ cursor.ahead.take count, ∀ rest, trivia character rest = true)
    {spans : List Span} (tiled : (cursor.skip count).Tiled trivia spans) :
    cursor.Tiled trivia spans := by
  unfold Tiled at tiled ⊢
  rw [position_skip, ahead_skip] at tiled
  rw [← List.take_append_drop count cursor.ahead]
  exact .blanks blank tiled

theorem tiled_skipWhile {accepts : Char → Bool}
    (blank : ∀ character, accepts character = true → ∀ rest, trivia character rest = true)
    {spans : List Span} (tiled : (cursor.skipWhile accepts).Tiled trivia spans) :
    cursor.Tiled trivia spans := by
  have start := List.prefix_iff_eq_take.1 (List.takeWhile_prefix accepts (l := cursor.ahead))
  apply tiled_skip _ tiled
  rw [← start]
  exact fun character member => blank character (List.mem_takeWhile_imp member)

theorem tiled_ended (ended : cursor.ahead = []) : cursor.Tiled trivia [] := by
  rw [Tiled, ended]
  exact .ended _

end Cursor

namespace Lexical

/-- A move that takes a span off the text ahead, or trivia alone. -/
structure Move.Takes {State : Type} (trivia : Char → List Char → Bool) (cursor : State → Cursor)
    (start : Cursor) (move : Move State) : Prop where
  tiled : ∀ spans, (cursor move.state).Tiled trivia spans →
    start.Tiled trivia (move.item.toList.map Lexed.span ++ spans)

theorem Reader.items_tile {State : Type} {reader : Reader State} {file : FileId}
    {trivia : Char → List Char → Bool} {cursor : State → Cursor}
    (step : ∀ state, Move.Takes trivia cursor (cursor state) (reader.move file state))
    (ends : ∀ state, (reader.move file state).isFinal = true →
      (cursor (reader.move file state).state).ahead = []) (state : State) :
    (cursor state).Tiled trivia ((reader.items file state).map Lexed.span) := by
  fun_induction Reader.items reader file state with
  | case1 state found lower induction =>
    have moved := (step state).tiled _ induction
    rw [found] at moved
    exact moved
  | case2 state item found final =>
    have ended := ends state (by simpa [Move.isFinal, found] using final)
    have moved := (step state).tiled _ (Cursor.tiled_ended ended)
    rw [found] at moved
    exact moved
  | case3 state item found goesOn lower induction =>
    have moved := (step state).tiled _ induction
    rw [found] at moved
    exact moved

end Lexical

namespace Python

abbrev trivia : Char → List Char → Bool := Language.isTrivia .python

theorem trivia_of_indentation {character : Char}
    (indentation : Cursor.isIndentation character = true) (rest : List Char) :
    trivia character rest = true := by
  simp [trivia, Language.isTrivia, indentation]

theorem trivia_lineBreak {text : List Char} :
    ∀ character ∈ text.take (lineBreakWidth text), ∀ rest, trivia character rest = true := by
  unfold lineBreakWidth
  split
  · simp [trivia, Language.isTrivia]
  · simp [trivia, Language.isTrivia]
  · simp

theorem trivia_of_blank {character : Char} (blank : Lexer.isBlankInLine character = true)
    (rest : List Char) : trivia character rest = true := by
  rcases Bool.or_eq_true _ _ ▸ blank with indentation | returns
  · exact trivia_of_indentation indentation rest
  · simp [trivia, Language.isTrivia, returns]

/-- What is read together with a token is the line break behind it. -/
theorem scan_absorbed (text : List Char) :
    (scan text).absorbed = 0 ∨
      (scan text).absorbed = lineBreakWidth (text.drop (scan text).width) := by
  unfold scan
  split
  · exact Or.inl (scanNumber_absorbed text)
  · split
    · unfold scanString
      split
      · exact Or.inl rfl
      · exact ite_eq_or_eq _ _ _
    · left
      split
      · rfl
      · unfold scanSymbol
        split
        · rfl
        · rfl

namespace Lexer

variable {lexer : Lexer}

/-- Whatever is passed over in front of a move is trivia. -/
theorem takes_of_skip {accepts : Char → Bool} {cursor : Cursor} {move : Move Lexer}
    (blank : ∀ character, accepts character = true → ∀ rest, trivia character rest = true)
    (takes : Move.Takes trivia Lexer.cursor (cursor.skipWhile accepts) move) :
    Move.Takes trivia Lexer.cursor cursor move :=
  ⟨fun spans tiled => Cursor.tiled_skipWhile blank (takes.tiled spans tiled)⟩

theorem tiled_lineBreak {cursor : Cursor} {spans : List Span}
    (tiled : (cursor.skip (lineBreakWidth cursor.ahead)).Tiled trivia spans) :
    cursor.Tiled trivia spans :=
  Cursor.tiled_skip trivia_lineBreak tiled

theorem moveAtLineStart_takes (file : FileId) (lexer : Lexer) :
    Move.Takes trivia Lexer.cursor lexer.cursor (lexer.moveAtLineStart file) := by
  apply takes_of_skip fun _ => trivia_of_indentation
  simp only [moveAtLineStart]
  generalize lexer.cursor.skipWhile Cursor.isIndentation = cursor
  split
  · exact ⟨fun spans tiled => tiled⟩
  · split
    · exact ⟨fun spans tiled => tiled_lineBreak tiled⟩
    · split
      · exact ⟨fun spans tiled => Cursor.tiled_token file _ (tiled_lineBreak tiled)⟩
      · split
        · exact ⟨fun spans tiled => tiled⟩
        iterate 3 exact ⟨fun spans tiled => Cursor.tiled_token file 0 tiled⟩

theorem moveAtEnd_takes (file : FileId) (lexer : Lexer) :
    Move.Takes trivia Lexer.cursor lexer.cursor (lexer.moveAtEnd file) := by
  unfold moveAtEnd
  split
  · exact ⟨fun spans tiled => Cursor.tiled_token file 0 tiled⟩
  · exact ⟨fun spans tiled => Cursor.tiled_token file 0 tiled⟩

/-- The newline token covers its line feed, and ends on the same line. -/
theorem moveAtLineFeed_takes {rest : List Char} (found : lexer.cursor.ahead = '\n' :: rest)
    (file : FileId) :
    Move.Takes trivia Lexer.cursor lexer.cursor (lexer.moveAtLineFeed file) := by
  have passes : ∀ spans, lexer.cursor.advance.Tiled trivia spans →
      lexer.cursor.Tiled trivia spans := by
    intro spans tiled
    rw [Cursor.Tiled, Cursor.advance, found] at tiled
    rw [Cursor.Tiled, found]
    exact .between (by simp [trivia, Language.isTrivia]) tiled
  simp only [moveAtLineFeed]
  split
  · exact ⟨passes⟩
  · split
    · constructor
      intro spans tiled
      rw [Cursor.Tiled]
      change lexer.cursor.advance.Tiled trivia spans at tiled
      rw [Cursor.Tiled, Cursor.advance, found] at tiled
      rw [found]
      refine @Tiles.token _ _ ['\n'] _ _ _ rfl ?_ ?_ ?_ tiled
      · simp [Position.le_def, Lexed.silent]
      · simp [Position.le_def, Position.after, Lexed.silent]
      · intro front character back split
        have alone : front = [] := by
          cases front with
          | nil => rfl
          | cons first front => simp at split
        rw [alone, Position.afterAll_nil]
        simp [Position.lt_def, Lexed.silent]
    · exact ⟨passes⟩

theorem moveAtToken_takes (file : FileId) (lexer : Lexer) :
    Move.Takes trivia Lexer.cursor lexer.cursor (lexer.moveAtToken file) := by
  constructor
  intro spans tiled
  apply Cursor.tiled_token file
  simp only [moveAtToken, Move.emit, Cursor.skip_add] at tiled
  apply Cursor.tiled_skip _ tiled
  rw [Cursor.ahead_skip]
  rcases scan_absorbed lexer.cursor.ahead with none | absorbed
  · rw [none]
    simp
  · rw [absorbed]
    exact trivia_lineBreak

theorem tiled_continuation {cursor : Cursor} (continued : 0 < continuationWidth cursor.ahead)
    {spans : List Span}
    (tiled : (cursor.skip (continuationWidth cursor.ahead)).Tiled trivia spans) :
    cursor.Tiled trivia spans := by
  unfold continuationWidth at continued tiled
  split at continued
  · rename_i rest found
    rw [found] at tiled
    simp only at tiled
    split at continued
    · cases continued
    · rename_i breaks
      rw [if_neg breaks, Cursor.skip_add] at tiled
      have ahead : (cursor.skip 1).ahead = rest := by simp [found]
      rw [← ahead] at tiled
      have later := tiled_lineBreak tiled
      have position : (cursor.skip 1).position = cursor.position.after '\\' := by
        rw [Cursor.position_skip, found]
        rfl
      rw [Cursor.Tiled, ahead, position] at later
      rw [Cursor.Tiled, found]
      exact .between (by simp [trivia, Language.isTrivia, Nat.pos_iff_ne_zero, breaks]) later
  · cases continued

theorem moveInLine_takes (file : FileId) (lexer : Lexer) :
    Move.Takes trivia Lexer.cursor lexer.cursor (lexer.moveInLine file) := by
  apply takes_of_skip fun _ => trivia_of_blank
  simp only [moveInLine]
  generalize lexer.cursor.skipWhile isBlankInLine = cursor
  split
  · exact moveAtEnd_takes file { lexer with cursor }
  · split
    · exact ⟨fun spans tiled => Cursor.tiled_token file _ tiled⟩
    · split
      · rename_i lineFeed
        obtain ⟨rest, found⟩ : ∃ rest, cursor.ahead = '\n' :: rest := by
          simpa [Cursor.startsWith, List.head?_eq_some_iff] using lineFeed
        exact @moveAtLineFeed_takes { lexer with cursor } _ found file
      · split
        · rename_i continued
          exact ⟨fun spans tiled => tiled_continuation continued tiled⟩
        · exact moveAtToken_takes file { lexer with cursor }

theorem move_takes (file : FileId) (lexer : Lexer) :
    Move.Takes trivia Lexer.cursor lexer.cursor (lexer.move file) := by
  unfold move
  split
  · exact ⟨fun spans tiled => Cursor.tiled_token file 0 tiled⟩
  · split
    · exact moveAtLineStart_takes file lexer
    · exact moveInLine_takes file lexer

end Lexer

theorem stream_tiles (file : FileId) (source : List Char) :
    Tiles trivia .origin source ((reader.stream file source).items.map Lexed.span) := by
  have ends : ∀ lexer, (reader.move file lexer).isFinal = true →
      (reader.move file lexer).state.cursor.ahead = [] := by
    intro lexer final
    obtain ⟨ended, known, moved⟩ := Lexer.move_final final
    change (Lexer.move file lexer).state.cursor.ahead = []
    rw [moved]
    exact known.ahead
  exact Reader.items_tile (Lexer.move_takes file) ends (reader.start source)

end Python

namespace Haskell

abbrev trivia : Char → List Char → Bool := Language.isTrivia .haskell

/-- By induction on what is scanned: a gap, what layout adds behind it and the token itself. -/
theorem Lexer.spread_tiles (file : FileId) (lexer : Lexer) (layout : Layout) :
    lexer.cursor.Tiled trivia ((layout.spread (lexer.scanned file)).map Prod.snd) := by
  have gap : ∀ (lexer : Lexer) spans, lexer.place.Tiled trivia spans →
      lexer.cursor.Tiled trivia spans :=
    fun lexer spans tiled => Cursor.tiled_skipWhile (fun _ blank _ => blank) tiled
  have written : ∀ (lexer : Lexer) (layout : Layout) (later : List Written),
      lexer.pastNext.cursor.Tiled trivia
        (((if lexer.nextScan.token = .comment then layout
          else (layout.step (lexer.nextWritten file)).2).spread later).map Prod.snd) →
      lexer.cursor.Tiled trivia
        ((layout.spread (lexer.nextWritten file :: later)).map Prod.snd) := by
    intro lexer layout later tiled
    rw [cursor_pastNext] at tiled
    have own := Cursor.tiled_token file lexer.nextScan.width tiled
    apply gap
    by_cases comment : lexer.nextScan.token = .comment
    · rw [if_pos comment] at own
      rw [Layout.spread_of_comment comment]
      exact own
    · rw [if_neg comment] at own
      rw [Layout.spread_of_written comment, List.map_append, List.map_map]
      exact @Tiles.points _ _ _ _ _ (lexer.nextWritten file).span rfl own
  fun_induction Lexer.scanned file lexer generalizing layout with
  | case1 lexer ended =>
    apply written
    apply Cursor.tiled_ended
    rw [cursor_pastNext, Cursor.ahead_skip, ahead_of_final ended, List.drop_nil]
  | case2 lexer inner shorter induction => exact written lexer layout _ (induction _)

theorem stream_tiles (file : FileId) (source : List Char) :
    Tiles trivia .origin source ((reader.stream file source).items.map Lexed.span) := by
  have spread := Lexer.spread_tiles file (Lexer.start source) {}
  rw [← scannedTokens, ← stream_located, List.map_map] at spread
  exact spread

end Haskell

/-- With comments kept, the tokens of a text in either language are in the order of the text and do not
overlap, each ends where it starts or later, and whatever character no token covers is trivia. -/
theorem tokens_tile_text (language : Language) (source : List Char) (context : Context) :
    let tokens := ({ context with keepComments := true }.lex language source).1
    (∀ found ∈ tokens, found.2.start ≤ found.2.stop) ∧
      (tokens.Pairwise fun earlier later => earlier.2.stop ≤ later.2.start) ∧
      ∀ front character back, source = front ++ character :: back →
        (∃ found ∈ tokens, found.2.start ≤ Position.origin.afterAll front ∧
          Position.origin.afterAll front < found.2.stop) ∨
        language.isTrivia character back = true := by
  intro tokens
  have tiles : Tiles language.isTrivia .origin source (tokens.map Prod.snd) := by
    have all : tokens.map Prod.snd =
        ((TokenSource.ofText language source).stream context.file).items.map Lexed.span := by
      simp [tokens, Context.lex]
    rw [all]
    cases language with
    | python => exact Python.stream_tiles context.file source
    | haskell => exact Haskell.stream_tiles context.file source
  refine ⟨?_, List.pairwise_map.1 tiles.ordered, ?_⟩
  · exact fun found member => (tiles.bounds _ (List.mem_map_of_mem member)).2
  · intro front character back split
    rcases tiles.covered front character back split with ⟨span, member, inside⟩ | blank
    · obtain ⟨found, among, rfl⟩ := List.mem_map.1 member
      exact Or.inl ⟨found, among, inside⟩
    · exact Or.inr blank

end Offside
