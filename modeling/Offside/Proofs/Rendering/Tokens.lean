import Offside.Proofs.Layout.Braced
import Offside.Proofs.Rendering.Words

/-!
Words as a lexer hands them out: their tokens in order, each with a span that cuts its text out of the
source, in the braces that layout puts around a text of one declaration. A token touches the one before
it where no blank stands between their words. Words go on in a line, which only what stands in a block
with braces of its own may break.
-/

namespace Offside.Haskell.Core

set_option autoImplicit false

open Offside.Lexical Core.Word

inductive Marks (file : FileId) (source : List Char) :
    Position → List Word → List (Token × Span) → Prop
  | nil (place : Position) : Marks file source place [] []
  | cons {place : Position} {word : Word} {span : Span} {words : List Word}
      {tokens : List (Token × Span)} (shows : span.Shows file source word.text)
      (near : span.start = place ↔ word.gap = false)
      (later : Marks file source span.stop words tokens) :
      Marks file source place (word :: words) ((word.token, span) :: tokens)

def Word.silent (token : Token) : Word := ⟨token, [], false⟩

/-- One block is open that no bracket was open around, and so many written out inside it. -/
structure InBlock (inner : Nat) (layout : Layout) : Prop where
  started : layout.started = true
  idle : layout.opener = none
  blocks : ∃ block, layout.blocks = List.replicate inner .explicit ++ [.implicit block] ∧
    block.depth = 0

variable {layout : Layout}

/-- A term closes nothing and announces nothing. -/
theorem InBlock.pass {inner : Nat} (inside : InBlock inner layout) {token : Token}
    (term : isTermToken token = true) :
    (layout.pass token).1 = [] ∧ InBlock inner (layout.pass token).2 := by
  obtain ⟨blocks, opener, started, depth⟩ := layout
  obtain ⟨rfl, rfl, block, rfl, flat⟩ := inside
  have kept : 0 < depth → (Layout.closeWhile (fun block => decide (depth ≤ block.depth))
      ⟨List.replicate inner .explicit ++ [.implicit block], none, true, depth⟩) =
        ([], ⟨List.replicate inner .explicit ++ [.implicit block], none, true, depth⟩) := by
    intro deep
    have closes : decide (depth ≤ block.depth) = false := by
      rw [flat, decide_eq_false_iff_not]
      omega
    cases inner with
    | zero => simp [Layout.closeWhile, Layout.splitBlocks, closes]
    | succ inner => simp [Layout.closeWhile, List.replicate_succ, Layout.splitBlocks]
  have closed : Layout.closeFor token
      ⟨List.replicate inner .explicit ++ [.implicit block], none, true, depth⟩ =
        ([], ⟨List.replicate inner .explicit ++ [.implicit block], none, true, depth⟩) := by
    by_cases closing : token = .closeParen ∨ token = .closeBracket ∨ token = .comma
    · by_cases deep : 0 < depth
      · rcases closing with rfl | rfl | rfl <;> simp [Layout.closeFor, deep, kept deep]
      · rcases closing with rfl | rfl | rfl <;> simp [Layout.closeFor, deep]
    · cases token <;> first | rfl | exact absurd term (by decide) | simp at closing
  have opened : InBlock inner (Layout.openFor token
      ⟨List.replicate inner .explicit ++ [.implicit block], none, true, depth⟩) := by
    cases token <;> first | exact ⟨rfl, rfl, block, rfl, flat⟩ | cases term
  simp only [Layout.pass, closed]
  exact ⟨trivial, opened⟩

/-- In the middle of a line, or in a block that is written out, only the token itself tells what layout
does. -/
theorem InBlock.step_pass {inner : Nat} (inside : InBlock inner layout) {written : Written}
    (inLine : inner = 0 → written.firstOnLine = false) :
    layout.step written = layout.pass written.token := by
  have met : layout.meet written = ([], layout) := by
    obtain ⟨blocks, opener, started, depth⟩ := layout
    obtain ⟨rfl, rfl, block, rfl, -⟩ := inside
    cases inner with
    | zero => simp [Layout.meet, Layout.align, inLine rfl]
    | succ inner =>
      simp [Layout.meet, Layout.align, List.replicate_succ, Layout.closeWhile, Layout.splitBlocks,
        Layout.innermostColumn]
  rw [Layout.step_eq_meet, met]
  rfl

/-- Layout adds nothing in front of a term. -/
theorem InBlock.step {inner : Nat} (inside : InBlock inner layout) {written : Written}
    (inLine : inner = 0 → written.firstOnLine = false) (term : isTermToken written.token = true) :
    (layout.step written).1 = [] ∧ InBlock inner (layout.step written).2 := by
  rw [inside.step_pass inLine]
  exact inside.pass term

theorem InBlock.step_close {inner : Nat} (inside : InBlock (inner + 1) layout) {written : Written}
    (closes : written.token = .closeBrace) :
    (layout.step written).1 = [] ∧ InBlock inner (layout.step written).2 := by
  rw [inside.step_pass (fun outside => by cases outside), closes]
  obtain ⟨blocks, opener, started, depth⟩ := layout
  obtain ⟨rfl, rfl, block, rfl, flat⟩ := inside
  simp only [Layout.pass, Layout.closeFor, List.replicate_succ, List.cons_append, List.contains_cons,
    BEq.rfl, Bool.true_or, if_true, Layout.closeWhile, Layout.splitBlocks, Layout.dropExplicit]
  exact ⟨rfl, rfl, rfl, block, rfl, flat⟩

/-- A keyword announces a block, which a brace writes out. -/
theorem InBlock.step_open {inner : Nat} (inside : InBlock inner layout) {keyword brace : Written}
    (inLine : inner = 0 → keyword.firstOnLine = false) (announces : keyword.token = .kwOf)
    (opens : brace.token = .openBrace) :
    (layout.step keyword).1 = [] ∧ ((layout.step keyword).2.step brace).1 = [] ∧
      InBlock (inner + 1) ((layout.step keyword).2.step brace).2 := by
  rw [inside.step_pass inLine, announces]
  obtain ⟨blocks, opener, started, depth⟩ := layout
  obtain ⟨rfl, rfl, block, rfl, flat⟩ := inside
  have passed : Layout.pass .kwOf
      ⟨List.replicate inner .explicit ++ [.implicit block], none, true, depth⟩ =
        ([], ⟨List.replicate inner .explicit ++ [.implicit block], some .kwOf, true, depth⟩) := rfl
  have opened : Layout.step brace
      ⟨List.replicate inner .explicit ++ [.implicit block], some .kwOf, true, depth⟩ =
        ([], ⟨.explicit :: (List.replicate inner .explicit ++ [.implicit block]), none, true,
          depth⟩) := by
    simp [Layout.step, Layout.startBlock, opens, Layout.pass, Layout.closeFor, Layout.openFor]
  rw [passed, opened]
  exact ⟨rfl, rfl, rfl, rfl, block, rfl, flat⟩

theorem step_first {written : Written} (term : isTermToken written.token = true) :
    ((({} : Layout).step written).1 = [.openBrace]) ∧
      InBlock 0 (({} : Layout).step written).2 := by
  have opens : Layout.opensText written.token = true := by
    cases found : written.token <;> rw [found] at term <;> first | rfl | cases term
  have met : ({} : Layout).meet written =
      ([.openBrace], ⟨[.implicit ⟨written.column, .kwWhere, 0⟩], none, true, 0⟩) := by
    simp [Layout.meet, opens]
  have inside : InBlock 0 ⟨[.implicit ⟨written.column, .kwWhere, 0⟩], none, true, 0⟩ :=
    ⟨rfl, rfl, _, rfl, rfl⟩
  obtain ⟨none, after⟩ := inside.pass term
  rw [Layout.step_eq_meet, met]
  exact ⟨congrArg ([.openBrace] ++ ·) none, after⟩

theorem InBlock.step_end (inside : InBlock 0 layout) {written : Written}
    (final : written.token = .endOfInput) : (layout.step written).1 = [.closeBrace] := by
  obtain ⟨blocks, opener, started, depth⟩ := layout
  obtain ⟨rfl, rfl, block, rfl, -⟩ := inside
  simp [Layout.step, Layout.continueBlock, Layout.align, final, Layout.pass, Layout.closeFor,
    Layout.closeWhile, Layout.splitBlocks]

/-- Words to which layout adds nothing: terms on one line, and blocks of alternatives written out, in
which a term may break the line. So many blocks are open before them. -/
inductive Braced : Nat → List Word → Prop
  | nil : Braced 0 []
  | term {inner : Nat} {word : Word} {later : List Word} (term : word.IsTerm (inner == 0))
      (rest : Braced inner later) : Braced inner (word :: later)
  | opens {inner : Nat} {keyword brace : Word} {later : List Word}
      (announces : keyword.token = .kwOf) (opens : brace.token = .openBrace)
      (rest : Braced (inner + 1) later) : Braced inner (keyword :: brace :: later)
  | closes {inner : Nat} {word : Word} {later : List Word} (closes : word.token = .closeBrace)
      (inLine : '\n' ∉ word.text) (rest : Braced inner later) : Braced (inner + 1) (word :: later)

theorem Braced.terms {inner : Nat} {words later : List Word} (terms : AreTerms (inner == 0) words)
    (rest : Braced inner later) : Braced inner (words ++ later) := by
  induction words with
  | nil => exact rest
  | cons word words induction =>
    rw [areTerms_cons] at terms
    exact .term terms.1 (induction terms.2)

structure Stands (source : List Char) (proper : Bool) (words : List Word) (lexer : Lexer) :
    Prop where
  behind : lexer.EndsBehind
  stands : lexer.cursor.Stands source
  ahead : lexer.cursor.ahead = textOf words
  touches : lexer.touches = proper
  legible : Legible proper words

namespace Stands

variable {source : List Char} {proper : Bool} {word : Word} {words : List Word} {lexer : Lexer}
  (stands : Stands source proper (word :: words) lexer)

include stands

theorem next :
    Takes lexer.nextScan word.token word.text ∧ lexer.gap = blankIf word.gap ∧
      lexer.place.ahead = word.text ++ textOf words := by
  obtain ⟨behind, -, ahead, touches, legible⟩ := stands
  cases legible with
  | cons shown starts takes rest =>
    have blank : ∀ character ∈ blankIf word.gap, Text.isBlank character = true := by
      cases word.gap <;> simp [blankIf] 
      decide
    rw [textOf_cons] at ahead
    obtain ⟨scanned, -, -⟩ := Lexer.nextScan_of_ahead behind ahead blank starts
    obtain ⟨gap, place⟩ := Lexer.place_of_ahead ahead blank starts
    refine ⟨?_, gap, place⟩
    rw [scanned, touches]
    have empty : (blankIf word.gap).isEmpty = !word.gap := by cases word.gap <;> rfl
    rw [empty]
    exact takes

theorem shown : isWordToken lexer.nextScan.token = true := by
  rw [stands.next.1.token]
  cases stands.legible with
  | cons shown => exact shown

theorem inner : lexer.nextScan.token ≠ .endOfInput := by
  intro ended
  have shown := stands.shown
  rw [ended] at shown
  cases shown

theorem written : lexer.nextScan.token ≠ .comment := by
  intro comment
  have shown := stands.shown
  rw [comment] at shown
  cases shown

theorem place_line : lexer.place.position.line = lexer.cursor.position.line := by
  have blanks : '\n' ∉ lexer.cursor.ahead.take (lexer.cursor.ahead.takeWhile Text.isBlank).length := by
    rw [← List.prefix_iff_eq_take.1 (List.takeWhile_prefix _)]
    change '\n' ∉ lexer.gap
    rw [stands.next.2.1]
    cases word.gap <;> decide
  rw [Lexer.place, Cursor.skipWhile, Cursor.position_skip, Position.line_afterAll blanks]

theorem past : Stands source (word.token == .properIdentifier) words lexer.pastNext := by
  obtain ⟨takes, -, ahead⟩ := stands.next
  refine
    { behind := Lexer.behind_pastNext stands.behind
      stands := by
        rw [Lexer.cursor_pastNext]
        exact (stands.stands.skipWhile _).skip _
      ahead := ?_
      touches := ?_
      legible := ?_ }
  · rw [Lexer.cursor_pastNext, Cursor.ahead_skip, ahead, takes.width, List.drop_left]
  · rw [Lexer.touches_pastNext stands.behind stands.inner, takes.token]
  · cases stands.legible with
    | cons _ _ _ rest => exact rest

theorem goesOn (inLine : '\n' ∉ word.text) :
    lexer.pastNext.lastLine = some lexer.pastNext.cursor.position.line := by
  obtain ⟨takes, -, ahead⟩ := stands.next
  have passed : lexer.place.ahead.take lexer.nextScan.width = word.text := by
    rw [ahead, takes.width, List.take_left]
  rw [Lexer.cursor_pastNext, Cursor.position_skip, passed, Position.line_afterAll inLine,
    Lexer.pastNext, if_neg stands.written]

end Stands

structure ReadsWord (file : FileId) (source : List Char) (word : Word) (lexer : Lexer) : Prop where
  token : (lexer.nextWritten file).token = word.token
  shows : (lexer.nextWritten file).span.Shows file source word.text
  near : (lexer.nextWritten file).span.start = lexer.cursor.position ↔ word.gap = false
  stop : (lexer.nextWritten file).span.stop = lexer.pastNext.cursor.position
  line : (lexer.nextWritten file).firstOnLine =
    (lexer.lastLine != some lexer.cursor.position.line)
  quiet : (lexer.nextItem file).reports = []

theorem Stands.reads {source : List Char} {proper : Bool} {word : Word} {words : List Word}
    {lexer : Lexer} (stands : Stands source proper (word :: words) lexer) (file : FileId) :
    ReadsWord file source word lexer := by
  obtain ⟨takes, gap, ahead⟩ := stands.next
  have slice := (stands.stands.skipWhile Text.isBlank).slice?_ahead file lexer.nextScan.width
  refine
    { token := takes.token
      shows := ⟨rfl, ?_⟩
      near := ?_
      stop := by rw [Lexer.cursor_pastNext]; rfl
      line := by rw [Lexer.nextWritten, stands.place_line]
      quiet := ?_ }
  · refine slice.trans (congrArg some ?_)
    change lexer.place.ahead.take _ = _
    rw [ahead, takes.width, List.take_left]
  · change lexer.place.position = lexer.cursor.position ↔ _
    cases spaced : word.gap with
    | false =>
      rw [spaced] at gap
      simp [Lexer.place_of_gap gap]
    | true =>
      rw [spaced] at gap
      have blanks : (lexer.cursor.ahead.takeWhile Text.isBlank).length = 1 :=
        congrArg List.length gap
      have remains : lexer.cursor.ahead ≠ [] := by
        intro none
        rw [none] at blanks
        cases blanks
      have before : lexer.cursor.position < (lexer.cursor.skip 1).position :=
        Cursor.position_lt_skip (by decide) remains
      rw [Lexer.place, Cursor.skipWhile, blanks]
      simpa using (Position.ne_of_lt before).symm
  · simp [Lexer.nextItem, Scan.lexed, takes.sound]

/-- A lexer at the end of words hands out the brace that closes their block. -/
theorem spread_end {source : List Char} {proper : Bool} {lexer : Lexer}
    (stands : Stands source proper [] lexer) (inside : InBlock 0 layout) (file : FileId) :
    ∃ span finish, layout.spread (lexer.scanned file) =
        [(.closeBrace, span), (.endOfInput, finish)] ∧
      span.Shows file source [] ∧ span.start = lexer.cursor.position ∧
      reportsOf (lexer.readings file) = [] := by
  have none : lexer.cursor.ahead = [] := stands.ahead
  have gap : lexer.gap = [] := by rw [Lexer.gap, none]; rfl
  have place := Lexer.place_of_gap gap
  have scan : lexer.nextScan = { token := .endOfInput, width := 0 } :=
    Lexer.nextScan_ended (by rw [place, none])
  have ended : lexer.nextScan.token = .endOfInput := by rw [scan]
  have final : (lexer.nextWritten file).token = .endOfInput := ended
  refine ⟨(lexer.nextWritten file).span.atStart, (lexer.nextWritten file).span, ?_, ⟨rfl, ?_⟩,
    congrArg Cursor.position place, ?_⟩
  · have closes := inside.step_end final
    rw [Lexer.scanned, dif_pos ended, Layout.spread_of_written (by rw [final]; simp), closes, final]
    rfl
  · have slice := (stands.stands.skipWhile Text.isBlank).slice?_ahead file 0
    exact slice
  · rw [Lexer.readings, dif_pos ended]
    simp [reportsOf, Lexer.nextItem, Scan.lexed, scan]

/-- A word that layout adds nothing to is handed out as it is written. -/
theorem spread_word {file : FileId} {source : List Char} {proper : Bool} {word : Word}
    {words after : List Word} {lexer : Lexer} (stands : Stands source proper (word :: words) lexer) (none : (layout.step (lexer.nextWritten file)).1 = [])
    (rest : ∃ tokens finish,
      (layout.step (lexer.nextWritten file)).2.spread (lexer.pastNext.scanned file) =
          tokens ++ [(.endOfInput, finish)] ∧
        Marks file source lexer.pastNext.cursor.position after tokens ∧
        reportsOf (lexer.pastNext.readings file) = []) :
    ∃ tokens finish, layout.spread (lexer.scanned file) = tokens ++ [(.endOfInput, finish)] ∧
      Marks file source lexer.cursor.position (word :: after) tokens ∧
      reportsOf (lexer.readings file) = [] := by
  have reads := stands.reads file
  obtain ⟨tokens, finish, spread, marks, quiet⟩ := rest
  refine ⟨(word.token, (lexer.nextWritten file).span) :: tokens, finish, ?_, ?_, ?_⟩
  · rw [Lexer.scanned, dif_neg stands.inner, Layout.spread_of_written stands.written, none,
      spread, reads.token]
    rfl
  · exact .cons reads.shows reads.near (by rw [reads.stop]; exact marks)
  · rw [Lexer.readings, dif_neg stands.inner]
    simpa [reportsOf, reads.quiet] using quiet

/-- By induction on the words: they are handed out as they are written. Outside the blocks that are
written out the line goes on. -/
theorem spread_words {file : FileId} {source : List Char} {proper : Bool} {words : List Word}
    {lexer : Lexer} {inner : Nat} (braced : Braced inner words)
    (stands : Stands source proper words lexer)
    (line : inner = 0 → lexer.lastLine = some lexer.cursor.position.line)
    (inside : InBlock inner layout) :
    ∃ tokens finish, layout.spread (lexer.scanned file) = tokens ++ [(.endOfInput, finish)] ∧
      Marks file source lexer.cursor.position (words ++ [silent .closeBrace]) tokens ∧
      reportsOf (lexer.readings file) = [] := by
  induction braced generalizing proper lexer layout with
  | nil =>
    obtain ⟨span, finish, spread, shows, start, quiet⟩ := spread_end stands inside file
    exact ⟨[(.closeBrace, span)], finish, spread,
      .cons shows (iff_of_true start rfl) (.nil _), quiet⟩
  | term term braced induction =>
    have reads := stands.reads file
    obtain ⟨none, next⟩ := inside.step
      (fun outside => by rw [reads.line, line outside, bne_self_eq_false])
      (by rw [reads.token, term.token])
    have goesOn := fun outside => stands.goesOn (term.inLine (beq_iff_eq.2 outside))
    exact spread_word stands none (induction stands.past goesOn next)
  | opens announces opens braced induction =>
    have reads := stands.reads file
    have readsBehind := stands.past.reads file
    obtain ⟨none, noneBehind, next⟩ := inside.step_open
      (fun outside => by rw [reads.line, line outside, bne_self_eq_false])
      (reads.token.trans announces)
      (readsBehind.token.trans opens)
    have behind := induction stands.past.past (fun outside => by cases outside) next
    exact spread_word stands none (spread_word stands.past noneBehind behind)
  | closes closes inLine braced induction =>
    obtain ⟨none, next⟩ := inside.step_close ((stands.reads file).token.trans closes)
    exact spread_word stands none (induction stands.past (fun _ => stands.goesOn inLine) next)

theorem stream_words {word : Word} {words : List Word} (close : word.gap = false)
    (legible : Legible false (word :: words)) (term : word.IsTerm true)
    (braced : Braced 0 words) (file : FileId) :
    let source := textOf (word :: words)
    ∃ tokens finish, (reader.stream file source).items.map Lexed.located =
        tokens ++ [(.endOfInput, finish)] ∧
      Marks file source .origin
        (silent .openBrace :: (word :: words ++ [silent .closeBrace])) tokens ∧
      reportsOf (reader.stream file source).items = [] := by
  intro source
  have stands : Stands source false (word :: words) (Lexer.start source) :=
    { behind := fun _ ends => by cases ends
      stands := Cursor.stands_ofText source
      ahead := rfl
      touches := rfl
      legible }
  have reads := stands.reads file
  have origin : ((Lexer.start source).nextWritten file).span.start = .origin := reads.near.2 close
  obtain ⟨opens, inside⟩ :=
    @step_first ((Lexer.start source).nextWritten file) (by rw [reads.token, term.token])
  obtain ⟨tokens, finish, spread, marks, quiet⟩ :=
    @spread_words _ file _ _ _ _ _ braced stands.past (fun _ => stands.goesOn (term.inLine rfl)) inside
  have opened : ((Lexer.start source).nextWritten file).span.atStart.Shows file source [] :=
    ⟨rfl, (stands.stands.skipWhile Text.isBlank).slice?_ahead file 0⟩
  refine ⟨(.openBrace, ((Lexer.start source).nextWritten file).span.atStart) ::
    (word.token, ((Lexer.start source).nextWritten file).span) :: tokens, finish, ?_, ?_, ?_⟩
  · have located := Lexer.located_items file (Lexer.start source) {} rfl
    refine located.trans ?_
    rw [Lexer.scanned, dif_neg stands.inner, Layout.spread_of_written stands.written, opens,
      spread, reads.token]
    rfl
  · refine .cons opened (iff_of_true origin rfl) (.cons reads.shows ?_ ?_)
    · exact iff_of_true rfl close
    · rw [reads.stop]
      exact marks
  · rw [stream_reports, sourceReadings, Lexer.readings, dif_neg stands.inner]
    simpa [reportsOf, reads.quiet] using quiet

end Offside.Haskell.Core
