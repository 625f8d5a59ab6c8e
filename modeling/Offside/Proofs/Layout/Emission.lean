import Offside.Proofs.Lexical.Recording
import Offside.Proofs.Lexical.OneFile

/-!
What the lexer hands out, as a run of layout over the written tokens of a text. The written tokens do
not depend on layout. Each of them is handed out after the tokens that layout adds in front of it, and
nothing else is handed out but comments, of which layout takes no notice.
-/

namespace Offside

set_option autoImplicit false

open Offside.Lexical

namespace Haskell

namespace Layout

/-- The tokens that come of written ones, and the layout after them. -/
def emit : Layout → List Written → List Token × Layout
  | layout, [] => ([], layout)
  | layout, written :: later =>
    let (tokens, final) := (layout.step written).2.emit later
    ((layout.step written).1 ++ written.token :: tokens, final)

theorem emit_cons (layout : Layout) (written : Written) (later : List Written) :
    layout.emit (written :: later) =
      ((layout.step written).1 ++ written.token :: ((layout.step written).2.emit later).1,
        ((layout.step written).2.emit later).2) :=
  rfl

theorem emit_append (layout : Layout) (first second : List Written) :
    layout.emit (first ++ second) =
      ((layout.emit first).1 ++ ((layout.emit first).2.emit second).1,
        ((layout.emit first).2.emit second).2) := by
  induction first generalizing layout with
  | nil => rfl
  | cons written first induction =>
    rw [List.cons_append, emit_cons, emit_cons, induction]
    simp

/-- What is handed out for written tokens and comments: a written token stands after those that layout
adds at its start. -/
def spread : Layout → List Written → List (Token × Span)
  | _, [] => []
  | layout, written :: later =>
    if written.token = .comment then (written.token, written.span) :: layout.spread later
    else
      (layout.step written).1.map (·, written.span.atStart) ++
        (written.token, written.span) :: (layout.step written).2.spread later

theorem spread_of_comment {written : Written} (comment : written.token = .comment)
    (layout : Layout) (later : List Written) :
    layout.spread (written :: later) =
      (written.token, written.span) :: layout.spread later := by
  rw [spread, if_pos comment]

theorem spread_of_written {written : Written} (other : written.token ≠ .comment)
    (layout : Layout) (later : List Written) :
    layout.spread (written :: later) =
      (layout.step written).1.map (·, written.span.atStart) ++
        (written.token, written.span) :: (layout.step written).2.spread later := by
  rw [spread, if_neg other]

def isAdded (token : Token) : Bool :=
  token = .openBrace || token = .closeBrace || token = .semicolon

def AreAdded (tokens : List Token) : Prop := ∀ token ∈ tokens, isAdded token = true

@[simp] theorem areAdded_nil : AreAdded [] := by
  intro token member
  cases member

@[simp] theorem areAdded_cons {token : Token} {tokens : List Token} :
    AreAdded (token :: tokens) ↔ isAdded token = true ∧ AreAdded tokens :=
  List.forall_mem_cons

@[simp] theorem areAdded_append {first second : List Token} :
    AreAdded (first ++ second) ↔ AreAdded first ∧ AreAdded second :=
  List.forall_mem_append

theorem closeWhile_added (closes : ImplicitBlock → Bool) (layout : Layout) :
    AreAdded (layout.closeWhile closes).1 := by
  intro token member
  rw [List.eq_of_mem_replicate member]
  rfl

theorem closeFor_added (token : Token) (layout : Layout) : AreAdded (layout.closeFor token).1 := by
  unfold closeFor
  split
  · split
    · split
      · simp [isAdded]
      · exact areAdded_nil
    · exact areAdded_nil
  iterate 3
    · split
      · exact closeWhile_added _ layout
      · exact areAdded_nil
  · split
    · exact closeWhile_added _ layout
    · exact areAdded_nil
  · exact closeWhile_added _ layout
  · exact areAdded_nil

theorem pass_added (token : Token) (layout : Layout) : AreAdded (layout.pass token).1 :=
  closeFor_added token layout

theorem openBlock_added (written : Written) (opener : Token) (layout : Layout) :
    AreAdded (layout.openBlock written opener).1 := by
  simp only [openBlock, areAdded_cons]
  exact ⟨rfl, pass_added written.token _⟩

theorem align_added (written : Written) (layout : Layout) : AreAdded (layout.align written).1 := by
  unfold align
  split
  · have closed := closeWhile_added (fun block => decide (written.column < block.column)) layout
    simp only
    split
    · exact areAdded_append.2 ⟨closed, by simp [isAdded]⟩
    · exact closed
  · exact areAdded_nil

theorem continueBlock_added (written : Written) (layout : Layout) :
    AreAdded (layout.continueBlock written).1 :=
  areAdded_append.2 ⟨align_added written layout, pass_added written.token _⟩

theorem step_added (written : Written) (layout : Layout) : AreAdded (layout.step written).1 := by
  unfold step
  split
  · exact openBlock_added written .kwWhere _
  · split
    · unfold startBlock
      split
      · exact pass_added written.token _
      · split
        · exact openBlock_added written _ _
        · simp only [areAdded_cons]
          exact ⟨rfl, rfl, continueBlock_added written _⟩
    · exact continueBlock_added written _

theorem added_ne_comment {token : Token} (added : isAdded token = true) : token ≠ .comment := by
  rintro rfl
  cases added

theorem added_ne_endOfInput {token : Token} (added : isAdded token = true) :
    token ≠ .endOfInput := by
  rintro rfl
  cases added

/-- Leaving comments out of what is handed out is leaving them out of the text. -/
theorem spread_withoutComments (layout : Layout) (tokens : List Written) :
    (layout.spread tokens).filter (fun found => found.1 != .comment) =
      layout.spread (tokens.filter fun written => written.token != .comment) := by
  induction tokens generalizing layout with
  | nil => rfl
  | cons written later induction =>
    by_cases comment : written.token = .comment
    · rw [spread_of_comment comment, List.filter_cons_of_neg (by simp [comment]),
        List.filter_cons_of_neg (by simp [comment]), induction]
    · have kept : ((layout.step written).1.map (·, written.span.atStart)).filter
          (fun found => found.1 != .comment) =
          (layout.step written).1.map (·, written.span.atStart) := by
        rw [List.filter_eq_self]
        intro found member
        obtain ⟨token, added, rfl⟩ := List.mem_map.1 member
        simpa using added_ne_comment (step_added written layout token added)
      rw [spread_of_written comment, List.filter_append, kept,
        List.filter_cons_of_pos (by simpa using comment),
        List.filter_cons_of_pos (by simpa using comment), spread_of_written comment, induction]

theorem spread_tokens {tokens : List Written}
    (noComments : ∀ written ∈ tokens, written.token ≠ .comment) (layout : Layout) :
    (layout.spread tokens).map Prod.fst = (layout.emit tokens).1 := by
  induction tokens generalizing layout with
  | nil => rfl
  | cons written later induction =>
    rw [List.forall_mem_cons] at noComments
    rw [spread_of_written noComments.1, emit_cons, List.map_append, List.map_cons,
      induction noComments.2, List.map_map]
    exact congrArg (· ++ _) (List.map_id _)

end Layout

namespace Lexer

/-- The text from the next token on. -/
def place (lexer : Lexer) : Cursor := lexer.cursor.skipWhile Text.isBlank

def nextScan (lexer : Lexer) : Scan :=
  scan (lexer.properEnd == some lexer.place.position) lexer.place.ahead

def nextWritten (file : FileId) (lexer : Lexer) : Written where
  token := lexer.nextScan.token
  span := spanAhead file lexer.place lexer.nextScan.width
  column := lexer.place.indentation
  firstOnLine := lexer.lastLine != some lexer.place.position.line

def nextItem (file : FileId) (lexer : Lexer) : Lexed :=
  lexer.nextScan.lexed file lexer.place (lexer.place.ahead.take lexer.nextScan.width)

theorem located_nextItem (file : FileId) (lexer : Lexer) :
    (lexer.nextItem file).located =
      ((lexer.nextWritten file).token, (lexer.nextWritten file).span) :=
  rfl

def pastNext (lexer : Lexer) : Lexer :=
  let after := lexer.place.skip lexer.nextScan.width
  if lexer.nextScan.token = .comment then { lexer with cursor := after }
  else
    { lexer with
      cursor := after
      lastLine := some lexer.place.position.line
      properEnd := if lexer.nextScan.token = .properIdentifier then some after.position else none }

theorem pastNext_shorter {lexer : Lexer} (goesOn : lexer.nextScan.token ≠ .endOfInput) :
    lexer.pastNext.cursor.ahead.length < lexer.cursor.ahead.length := by
  have skipped := Cursor.length_ahead_skipWhile_le Text.isBlank lexer.cursor
  have remains : lexer.place.ahead ≠ [] := by
    intro ended
    apply goesOn
    rw [nextScan, ended]
    rfl
  have shorter := Cursor.length_ahead_skip_lt
    (scan_width_pos (lexer.properEnd == some lexer.place.position) remains) remains
  have moved : lexer.pastNext.cursor = lexer.place.skip lexer.nextScan.width := by
    unfold pastNext
    split <;> rfl
  rw [moved]
  exact Nat.lt_of_lt_of_le shorter skipped

/-- The written tokens of the text ahead, comments left out, up to the end of input. -/
def written (file : FileId) (lexer : Lexer) : List Written :=
  if ended : lexer.nextScan.token = .endOfInput then [lexer.nextWritten file]
  else
    have := pastNext_shorter ended
    if lexer.nextScan.token = .comment then lexer.pastNext.written file
    else lexer.nextWritten file :: lexer.pastNext.written file
termination_by lexer.cursor.ahead.length

/-- The tokens of the text ahead as they are written, comments included, up to the end of input. -/
def scanned (file : FileId) (lexer : Lexer) : List Written :=
  if ended : lexer.nextScan.token = .endOfInput then [lexer.nextWritten file]
  else
    have := pastNext_shorter ended
    lexer.nextWritten file :: lexer.pastNext.scanned file
termination_by lexer.cursor.ahead.length

theorem written_eq_filter (file : FileId) (lexer : Lexer) :
    lexer.written file =
      (lexer.scanned file).filter fun written => written.token != .comment := by
  fun_induction Lexer.written file lexer with
  | case1 lexer ended =>
    rw [scanned, dif_pos ended, List.filter_cons_of_pos (by simp [nextWritten, ended])]
    rfl
  | case2 lexer inner shorter comment induction =>
    rw [scanned, dif_neg inner, List.filter_cons_of_neg (by simp [nextWritten, comment]),
      induction]
  | case3 lexer inner shorter other induction =>
    rw [scanned, dif_neg inner, List.filter_cons_of_pos (by simpa [nextWritten] using other),
      induction]

theorem pastNext_withLayout (lexer : Lexer) (layout : Layout) :
    ({ lexer with layout } : Lexer).pastNext = { lexer.pastNext with layout } := by
  change (if lexer.nextScan.token = .comment then _ else _) = _
  unfold pastNext
  split <;> rfl

theorem pending_pastNext (lexer : Lexer) : lexer.pastNext.pending = lexer.pending := by
  unfold pastNext
  split <;> rfl

theorem read_of_comment {file : FileId} {lexer : Lexer}
    (comment : lexer.nextScan.token = .comment) :
    lexer.read file = .emit (lexer.nextItem file) lexer.pastNext := by
  rw [pastNext, if_pos comment]
  change (if lexer.nextScan.token = .comment then _ else _) = _
  rw [if_pos comment]
  rfl

theorem read_of_written {file : FileId} {lexer : Lexer}
    (other : lexer.nextScan.token ≠ .comment) :
    lexer.read file =
      release { lexer.pastNext with layout := (lexer.layout.step (lexer.nextWritten file)).2 }
        (lexer.layout.step (lexer.nextWritten file)).1 (lexer.nextItem file) := by
  rw [pastNext, if_neg other]
  change (if lexer.nextScan.token = .comment then _ else _) = _
  rw [if_neg other]
  rfl

def located (file : FileId) (lexer : Lexer) : List (Token × Span) :=
  (reader.items file lexer).map Lexed.located

theorem located_of_emit {file : FileId} {lexer next : Lexer} {item : Lexed}
    (moved : reader.move file lexer = .emit item next) :
    lexer.located file = item.located ::
      if item.token = .endOfInput then [] else next.located file := by
  by_cases final : item.token = .endOfInput
  · rw [located, Reader.items_of_final moved (by simpa [Lexed.isFinal] using final), if_pos final]
    rfl
  · rw [located, Reader.items_of_emit moved (by simpa [Lexed.isFinal] using final), if_neg final]
    rfl

/-- Tokens that wait are handed out in order, the written one at last. -/
theorem located_pending (file : FileId) (lexer : Lexer) (added : List Token) (item : Lexed)
    (place : Span) (known : Layout.AreAdded added) :
    ({ lexer with pending := added.map (Lexed.silent · place) ++ [item] } : Lexer).located file =
      added.map (·, place) ++ item.located ::
        if item.token = .endOfInput then []
        else ({ lexer with pending := [] } : Lexer).located file := by
  induction added with
  | nil => exact located_of_emit rfl
  | cons token added induction =>
    rw [Layout.areAdded_cons] at known
    have moved : reader.move file
        { lexer with pending := (token :: added).map (Lexed.silent · place) ++ [item] } =
        .emit (.silent token place)
          { lexer with pending := added.map (Lexed.silent · place) ++ [item] } := rfl
    rw [located_of_emit moved]
    change (token, place) :: (if token = .endOfInput then [] else _) = _
    rw [if_neg (Layout.added_ne_endOfInput known.1), induction known.2, List.map_cons,
      List.cons_append]

theorem located_release {file : FileId} {state lexer : Lexer} {added : List Token} {item : Lexed}
    (moved : reader.move file state = release lexer added item) (idle : lexer.pending = [])
    (known : Layout.AreAdded added) :
    state.located file = added.map (·, item.span.atStart) ++ item.located ::
      if item.token = .endOfInput then [] else lexer.located file := by
  cases added with
  | nil => exact located_of_emit moved
  | cons first later =>
    rw [Layout.areAdded_cons] at known
    have same : ({ lexer with pending := [] } : Lexer) = lexer := by rw [← idle]
    have waiting := located_pending file lexer later (.silent item.token item.span)
      item.span.atStart known.2
    rw [same] at waiting
    rw [located_of_emit moved, List.map_cons, List.cons_append]
    change (first, item.span.atStart) :: (if first = .endOfInput then [] else _) = _
    rw [if_neg (Layout.added_ne_endOfInput known.1)]
    exact congrArg ((first, item.span.atStart) :: ·) waiting

theorem move_of_idle (file : FileId) {lexer : Lexer} (idle : lexer.pending = []) :
    reader.move file lexer = lexer.read file := by
  change lexer.move file = _
  rw [move, idle]

theorem located_of_written (file : FileId) {lexer : Lexer} (layout : Layout)
    (idle : lexer.pending = []) (other : lexer.nextScan.token ≠ .comment) :
    ({ lexer with layout } : Lexer).located file =
      (layout.step (lexer.nextWritten file)).1.map (·, (lexer.nextWritten file).span.atStart) ++
        ((lexer.nextWritten file).token, (lexer.nextWritten file).span) ::
        if lexer.nextScan.token = .endOfInput then []
        else ({ lexer.pastNext with
          layout := (layout.step (lexer.nextWritten file)).2 } : Lexer).located file := by
  have otherWith : ({ lexer with layout } : Lexer).nextScan.token ≠ .comment := other
  have idleWith : ({ lexer with layout } : Lexer).pending = [] := idle
  have moved := (move_of_idle file idleWith).trans (read_of_written otherWith)
  rw [pastNext_withLayout] at moved
  exact located_release moved ((pending_pastNext lexer).trans idle) (Layout.step_added _ _)

theorem located_of_comment (file : FileId) {lexer : Lexer} (layout : Layout)
    (idle : lexer.pending = []) (comment : lexer.nextScan.token = .comment) :
    ({ lexer with layout } : Lexer).located file =
      ((lexer.nextWritten file).token, (lexer.nextWritten file).span) ::
        ({ lexer.pastNext with layout } : Lexer).located file := by
  have commentWith : ({ lexer with layout } : Lexer).nextScan.token = .comment := comment
  have idleWith : ({ lexer with layout } : Lexer).pending = [] := idle
  have moved := (move_of_idle file idleWith).trans (read_of_comment commentWith)
  rw [pastNext_withLayout] at moved
  have inner : (({ lexer with layout } : Lexer).nextItem file).token ≠ .endOfInput := by
    change lexer.nextScan.token ≠ .endOfInput
    simp [comment]
  rw [located_of_emit moved, if_neg inner]
  rfl

/-- What is handed out of a text is what layout makes of its written tokens and comments. -/
theorem located_items (file : FileId) (lexer : Lexer) (layout : Layout)
    (idle : lexer.pending = []) :
    ({ lexer with layout } : Lexer).located file = layout.spread (lexer.scanned file) := by
  fun_induction Lexer.scanned file lexer generalizing layout with
  | case1 lexer ended =>
    have other : lexer.nextScan.token ≠ .comment := by simp [ended]
    rw [located_of_written file layout idle other, if_pos ended, Layout.spread_of_written other]
    rfl
  | case2 lexer inner shorter induction =>
    have idleNext : lexer.pastNext.pending = [] := (pending_pastNext lexer).trans idle
    by_cases comment : lexer.nextScan.token = .comment
    · rw [located_of_comment file layout idle comment, Layout.spread_of_comment comment,
        induction _ idleNext]
    · rw [located_of_written file layout idle comment, if_neg inner,
        Layout.spread_of_written comment, induction _ idleNext]

theorem scanned_split (file : FileId) (lexer : Lexer) :
    ∃ inner final, lexer.scanned file = inner ++ [final] ∧ final.token = .endOfInput ∧
      ∀ written ∈ inner, written.token ≠ .endOfInput := by
  fun_induction Lexer.scanned file lexer with
  | case1 lexer ended => exact ⟨[], _, rfl, ended, by simp⟩
  | case2 lexer inner shorter induction =>
    obtain ⟨first, final, split, ended, others⟩ := induction
    refine ⟨lexer.nextWritten file :: first, final, by rw [split, List.cons_append], ended, ?_⟩
    exact List.forall_mem_cons.2 ⟨inner, others⟩

theorem written_split (file : FileId) (lexer : Lexer) :
    ∃ inner final, lexer.written file = inner ++ [final] ∧ final.token = .endOfInput ∧
      ∀ written ∈ inner, written.token ≠ .endOfInput := by
  obtain ⟨inner, final, split, ended, others⟩ := scanned_split file lexer
  refine ⟨inner.filter fun written => written.token != .comment, final, ?_, ended,
    fun written member => others written (List.mem_filter.1 member).1⟩
  rw [written_eq_filter, split, List.filter_append, List.filter_cons_of_pos (by simp [ended])]
  rfl

end Lexer

def writtenTokens (file : FileId) (source : List Char) : List Written :=
  (Lexer.start source).written file

def scannedTokens (file : FileId) (source : List Char) : List Written :=
  (Lexer.start source).scanned file

theorem stream_located (file : FileId) (source : List Char) :
    (reader.stream file source).items.map Lexed.located =
      Layout.spread {} (scannedTokens file source) :=
  Lexer.located_items file (Lexer.start source) {} rfl

/-- What a parser is shown of a text is what layout makes of its written tokens. -/
theorem stream_visible (file : FileId) (source : List Char) :
    (reader.stream file source).visible = Layout.spread {} (writtenTokens file source) := by
  have shown : (reader.stream file source).visible =
      ((reader.stream file source).items.map Lexed.located).filter
        fun found => found.1 != .comment := by
    rw [TokenStream.visible, List.filter_map]
    apply congrArg (List.map Lexed.located)
    apply List.filter_congr
    intro item _
    exact congrArg (! ·) (beq_eq_decide item.token .comment).symm
  rw [shown, stream_located, Layout.spread_withoutComments, writtenTokens,
    Lexer.written_eq_filter]
  rfl

theorem stream_tokens (file : FileId) (source : List Char) :
    (reader.stream file source).visible.map Prod.fst =
      (Layout.emit {} (writtenTokens file source)).1 := by
  rw [stream_visible]
  apply Layout.spread_tokens
  intro written member
  rw [writtenTokens, Lexer.written_eq_filter] at member
  simpa using (List.mem_filter.1 member).2

end Haskell

end Offside
