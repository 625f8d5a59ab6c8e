import Offside.Proofs.Python.Lines
import Offside.TokenSource

/-!
The layout tokens of a Python text. Inside brackets no line ends and no block is opened, and blocks are
closed there at the end of the text alone. A line ends only if it has a written token. A block is opened or
closed only where a line starts: at the start of the text, behind the end of a line, or behind a string
that is cut off by the end of its line.
-/

namespace Offside

set_option autoImplicit false

open Lexical

namespace Lexical

variable {State : Type} {reader : Reader State} {file : FileId}
  {keeps : List Lexed → State → Prop} {placed : List Lexed → Lexed → Prop}

/-- What every move keeps of the items handed out so far and of the state, and what each item is due to
as it is handed out. -/
structure Reader.Places (reader : Reader State) (file : FileId)
    (keeps : List Lexed → State → Prop) (placed : List Lexed → Lexed → Prop) : Prop where
  item : ∀ handed state, keeps handed state → ∀ item ∈ (reader.move file state).item,
    placed handed item
  move : ∀ handed state, keeps handed state → (reader.move file state).isFinal = false →
    keeps (handed ++ (reader.move file state).item.toList) (reader.move file state).state

/-- Every item of a text has its place behind those handed out before it. -/
theorem Reader.Places.items (places : reader.Places file keeps placed) {handed : List Lexed}
    {state : State} (kept : keeps handed state) {front back : List Lexed} {item : Lexed}
    (split : reader.items file state = front ++ item :: back) : placed (handed ++ front) item := by
  have first := places.item handed state kept
  have moved := places.move handed state kept
  fun_induction Reader.items reader file state generalizing handed front with
  | case1 state found lower induction =>
    rw [found] at moved
    have same : keeps handed (reader.move file state).state := by
      simpa [Move.isFinal, found] using moved
    exact induction same split (places.item handed _ same) (places.move handed _ same)
  | case2 state handedOut found final =>
    cases front with
    | nil =>
      obtain ⟨rfl, -⟩ := List.cons_eq_cons.1 split
      rw [List.append_nil]
      exact first _ found
    | cons other rest => simp at split
  | case3 state handedOut found goesOn lower induction =>
    rw [found] at moved
    have same : keeps (handed ++ [handedOut]) (reader.move file state).state :=
      moved (by simpa [Move.isFinal, found] using goesOn)
    cases front with
    | nil =>
      obtain ⟨rfl, -⟩ := List.cons_eq_cons.1 split
      rw [List.append_nil]
      exact first _ found
    | cons other rest =>
      obtain ⟨rfl, later⟩ := List.cons_eq_cons.1 split
      rw [List.append_cons]
      exact induction same later (places.item _ _ same) (places.move _ _ same)

end Lexical

namespace Python

def isOfLine (token : Token) : Bool := token != .comment && token != .indent && token != .dedent

/-- Brackets open behind tokens. A closing bracket without an open one counts for nothing. -/
def bracketsOpen (tokens : List (Token × Span)) : Nat :=
  (tokens.map Prod.fst).foldl Lexer.depthAfter 0

/-- A written token stands behind the last end of a line. -/
def HasWritten (tokens : List (Token × Span)) : Prop :=
  ∃ earlier word later, tokens = earlier ++ word :: later ∧ isWritten word.1 = true ∧
    ∀ other ∈ later, other.1 ≠ .newline

/-- Behind these tokens a logical line starts: there are none, or the last is the end of a line or a
string reported as cut off. Comments, and layout that opens or closes blocks, are passed over. -/
def StartsLine (tokens : List (Token × Span)) (reports : List Diagnostic) : Prop :=
  ∀ last ∈ (tokens.filter fun found => isOfLine found.1).getLast?,
    last.1 = .newline ∨ last.1 = .string ∧ ⟨.unterminatedLiteral, last.2⟩ ∈ reports

section

variable {tokens : List (Token × Span)} {found : Token × Span} {reports more : List Diagnostic}

theorem bracketsOpen_concat :
    bracketsOpen (tokens ++ [found]) = Lexer.depthAfter (bracketsOpen tokens) found.1 := by
  simp [bracketsOpen]

theorem hasWritten_concat (written : isWritten found.1 = true) : HasWritten (tokens ++ [found]) :=
  ⟨tokens, found, [], rfl, written, by simp⟩

theorem HasWritten.concat (filled : HasWritten tokens) (inner : found.1 ≠ .newline) :
    HasWritten (tokens ++ [found]) := by
  obtain ⟨earlier, word, later, rfl, written, inLine⟩ := filled
  refine ⟨earlier, word, later ++ [found], by simp, written, ?_⟩
  rw [List.forall_mem_append]
  exact ⟨inLine, by simpa using inner⟩

theorem StartsLine.mono (starts : StartsLine tokens reports) (subset : reports ⊆ more) :
    StartsLine tokens more :=
  fun last member => (starts last member).imp_right fun string => ⟨string.1, subset string.2⟩

theorem startsLine_concat (ofLine : isOfLine found.1 = true) :
    StartsLine (tokens ++ [found]) reports ↔
      found.1 = .newline ∨ found.1 = .string ∧ ⟨.unterminatedLiteral, found.2⟩ ∈ reports := by
  simp [StartsLine, List.filter_append, ofLine]

theorem startsLine_quiet (quiet : isOfLine found.1 = false) :
    StartsLine (tokens ++ [found]) reports ↔ StartsLine tokens reports := by
  simp [StartsLine, List.filter_append, quiet]

theorem quiet_cases {token : Token} (quiet : isOfLine token = false) :
    token = .comment ∨ token = .indent ∨ token = .dedent := by
  simp only [isOfLine, Bool.and_eq_false_iff, bne_eq_false_iff_eq] at quiet
  rw [or_assoc] at quiet
  exact quiet

end

/-- A string that takes the line break along is reported over its whole width. -/
theorem scan_cutOff {text : List Char} (cutOff : 0 < (scan text).absorbed) :
    (scan text).token = .string ∧
      (scan text).defect = some ⟨.unterminatedLiteral, (scan text).width⟩ := by
  unfold scan at cutOff ⊢
  split at cutOff
  · rw [scanNumber_absorbed] at cutOff
    cases cutOff
  · rename_i other
    rw [if_neg other]
    split at cutOff
    · rename_i prefixWidth _
      unfold scanString at cutOff ⊢
      split at cutOff
      · cases cutOff
      · refine ⟨rfl, ?_⟩
        simp only at cutOff ⊢
        generalize stringBody _ _ _ = body at cutOff ⊢
        obtain ⟨width, closed⟩ := body
        cases closed with
        | false => rfl
        | true => cases cutOff
    · split at cutOff
      · cases cutOff
      · unfold scanSymbol at cutOff
        split at cutOff <;> cases cutOff

namespace Lexer

structure Follows (source : List Char) (handed : List Lexed) (lexer : Lexer) : Prop where
  stands : lexer.cursor.Stands source
  depth : lexer.depth = bracketsOpen (handed.map Lexed.located)
  filled : lexer.lineHasTokens = true → HasWritten (handed.map Lexed.located)
  fresh : lexer.lineHasTokens = false →
    lexer.depth = 0 ∧ StartsLine (handed.map Lexed.located) (reportsOf handed)
  start : lexer.atLineStart = true → lexer.lineHasTokens = false
  owed : 0 < lexer.blocks.owed → lexer.lineHasTokens = false

structure Allows (file : FileId) (source : List Char) (handed : List Lexed) (item : Lexed) : Prop where
  newline : item.token = .newline →
    bracketsOpen (handed.map Lexed.located) = 0 ∧ HasWritten (handed.map Lexed.located)
  indent : item.token = .indent → bracketsOpen (handed.map Lexed.located) = 0 ∧
    StartsLine (handed.map Lexed.located) (reportsOf handed)
  dedent : item.token = .dedent → item.span = .point (Position.origin.afterAll source) file ∨
    bracketsOpen (handed.map Lexed.located) = 0 ∧
      StartsLine (handed.map Lexed.located) (reportsOf handed)

variable {file : FileId} {source : List Char} {handed : List Lexed} {lexer after : Lexer} {item : Lexed}

theorem Allows.of_written (written : isWritten item.token = true ∨ item.token = .comment ∨
    item.token = .endOfInput) : Allows file source handed item := by
  have others : item.token ≠ .newline ∧ item.token ≠ .indent ∧ item.token ≠ .dedent := by
    refine ⟨?_, ?_, ?_⟩ <;>
    · intro same
      rw [same] at written
      revert written
      decide
  exact ⟨fun same => absurd same others.1, fun same => absurd same others.2.1,
    fun same => absurd same others.2.2⟩

namespace Follows

theorem reportsOf_subset (handed : List Lexed) (item : Lexed) :
    reportsOf handed ⊆ reportsOf (handed ++ [item]) := by
  simp [reportsOf]

/-- Silent moves, and items that belong to no line, leave the line and its brackets as they are. -/
theorem pass (follows : Follows source handed lexer) (stands : after.cursor.Stands source)
    (depth : after.depth = lexer.depth) (line : after.lineHasTokens = lexer.lineHasTokens)
    (start : after.atLineStart = true → after.lineHasTokens = false)
    (owed : 0 < after.blocks.owed → after.lineHasTokens = false) : Follows source handed after where
  stands := stands
  depth := by rw [depth, follows.depth]
  filled := by
    rw [line]
    exact follows.filled
  fresh := by
    rw [line, depth]
    exact follows.fresh
  start := start
  owed := owed

theorem quiet (follows : Follows source handed lexer) (quiet : isOfLine item.token = false) :
    Follows source (handed ++ [item]) lexer where
  stands := follows.stands
  depth := by
    rw [List.map_append, List.map_singleton, bracketsOpen_concat, follows.depth]
    rcases quiet_cases quiet with same | same | same <;>
      simp [Lexed.located, same, depthAfter, Token.isOpening, Token.isClosing]
  filled := by
    intro filled
    rw [List.map_append, List.map_singleton]
    refine (follows.filled filled).concat fun same => ?_
    rw [show item.token = .newline from same] at quiet
    cases quiet
  fresh := by
    intro fresh
    obtain ⟨closed, starts⟩ := follows.fresh fresh
    refine ⟨closed, ?_⟩
    rw [List.map_append, List.map_singleton, startsLine_quiet quiet]
    exact starts.mono (reportsOf_subset handed item)
  start := follows.start
  owed := follows.owed

end Follows

structure Advances (file : FileId) (source : List Char) (handed : List Lexed) (move : Move Lexer) :
    Prop where
  item : ∀ item ∈ move.item, Allows file source handed item
  state : move.isFinal = false → Follows source (handed ++ move.item.toList) move.state

theorem advances_pass (follows : Follows source handed after) :
    Advances file source handed (.pass after) where
  item := nofun
  state := by
    intro _
    simpa [Move.pass] using follows

theorem advances_quiet (follows : Follows source handed after) (quiet : isOfLine item.token = false)
    (allows : Allows file source handed item) : Advances file source handed (.emit item after) where
  item := by
    rintro _ ⟨⟩
    exact allows
  state := fun _ => follows.quiet quiet

theorem advances_comment (follows : Follows source handed after) (cursor : Cursor) :
    Advances file source handed (.emit (commentItem file cursor) after) :=
  advances_quiet follows rfl (.of_written (.inr (.inl rfl)))

theorem moveAtLineStart_advances (follows : Follows source handed lexer)
    (atStart : lexer.atLineStart = true) :
    Advances file source handed (lexer.moveAtLineStart file) := by
  have fresh := follows.start atStart
  obtain ⟨closed, starts⟩ := follows.fresh fresh
  rw [follows.depth] at closed
  have stands := follows.stands.skipWhile Cursor.isIndentation
  simp only [moveAtLineStart]
  generalize lexer.cursor.skipWhile Cursor.isIndentation = cursor at stands ⊢
  split
  · exact advances_pass (follows.pass stands rfl rfl (fun _ => fresh) fun _ => fresh)
  · split
    · exact advances_pass (follows.pass (stands.skip _) rfl rfl (fun _ => fresh) fun _ => fresh)
    · split
      · have past : Follows source handed { lexer with
            cursor := (afterComment cursor).skip (lineBreakWidth (afterComment cursor).ahead) } :=
          follows.pass ((stands.skip _).skip _) rfl rfl (fun _ => fresh) fun _ => fresh
        exact advances_comment past cursor
      · generalize lexer.blocks.meet cursor.indentation = met
        have level : Follows source handed
            { lexer with cursor, blocks := met.2, atLineStart := false } :=
          follows.pass stands rfl rfl (fun _ => fresh) fun _ => fresh
        split
        · exact advances_pass level
        · exact advances_quiet level rfl ⟨by rintro ⟨⟩, fun _ => ⟨closed, starts⟩, by rintro ⟨⟩⟩
        · exact advances_quiet level rfl ⟨by rintro ⟨⟩, by rintro ⟨⟩, fun _ => .inr ⟨closed, starts⟩⟩
        · exact advances_quiet level rfl ⟨by rintro ⟨⟩, by rintro ⟨⟩, fun _ => .inr ⟨closed, starts⟩⟩

theorem here_of_ended (stands : lexer.cursor.Stands source) (ended : lexer.cursor.ahead = []) :
    lexer.here file = .point (Position.origin.afterAll source) file := by
  have whole := stands.text
  rw [Cursor.text, ended, List.append_nil] at whole
  rw [here, stands.position, whole]

theorem moveAtEnd_advances (follows : Follows source handed lexer)
    (ended : lexer.cursor.ahead = []) : Advances file source handed (lexer.moveAtEnd file) := by
  unfold moveAtEnd
  split
  · refine ⟨?_, fun inner => by cases inner⟩
    rintro _ ⟨⟩
    exact .of_written (.inr (.inr rfl))
  · refine advances_quiet ?_ rfl ⟨nofun, nofun, fun _ => .inl (here_of_ended follows.stands ended)⟩
    exact follows.pass follows.stands rfl rfl follows.start follows.owed

theorem moveAtLineFeed_advances (follows : Follows source handed lexer)
    (settled : lexer.blocks.owed = 0) (inLine : lexer.atLineStart = false) :
    Advances file source handed (lexer.moveAtLineFeed file) := by
  have stands : lexer.cursor.advance.Stands source := follows.stands.advance
  have none : ¬0 < lexer.blocks.owed := by omega
  simp only [moveAtLineFeed]
  split
  · exact advances_pass (follows.pass stands rfl rfl (by simp [inLine]) fun owed => absurd owed none)
  · rename_i closed
    have closed : lexer.depth = 0 := by omega
    split
    · rename_i filled
      refine ⟨?_, fun _ => ?_⟩
      · rintro _ ⟨⟩
        exact ⟨fun _ => ⟨by rw [← follows.depth, closed], follows.filled filled⟩, by rintro ⟨⟩, by rintro ⟨⟩⟩
      · refine ⟨stands, ?_, by rintro ⟨⟩, fun _ => ⟨closed, ?_⟩, fun _ => rfl, fun _ => rfl⟩
        · rw [Move.emit, Option.toList_some, List.map_append, List.map_singleton, bracketsOpen_concat,
            ← follows.depth]
          rfl
        · rw [Move.emit, Option.toList_some, List.map_append, List.map_singleton]
          exact (startsLine_concat rfl).2 (.inl rfl)
    · rename_i empty
      have empty : lexer.lineHasTokens = false := by simpa using empty
      exact advances_pass (follows.pass stands rfl rfl (fun _ => empty) fun _ => empty)

theorem moveAtToken_advances (follows : Follows source handed lexer)
    (settled : lexer.blocks.owed = 0) : Advances file source handed (lexer.moveAtToken file) := by
  have written := scan_written lexer.cursor.ahead
  have cutOff := @scan_cutOff lexer.cursor.ahead
  have stands := follows.stands
  have none : ¬0 < lexer.blocks.owed := by omega
  simp only [moveAtToken]
  generalize scan lexer.cursor.ahead = scan at written cutOff ⊢
  refine ⟨?_, fun _ => ?_⟩
  · rintro _ ⟨⟩
    exact .of_written (.inl written)
  · rw [Move.emit, Option.toList_some]
    refine ⟨stands.skip _, ?_, ?_, ?_, ?_, fun owed => absurd owed none⟩
    · rw [List.map_append, List.map_singleton, bracketsOpen_concat, ← follows.depth]
      rfl
    · intro _
      rw [List.map_append, List.map_singleton]
      exact hasWritten_concat written
    · intro ends
      have ends : 0 < scan.absorbed ∧ lexer.depth = 0 := by simpa using ends
      obtain ⟨string, defect⟩ := cutOff ends.1
      refine ⟨?_, ?_⟩
      · rw [string]
        exact ends.2
      · rw [List.map_append, List.map_singleton]
        refine (startsLine_concat ?_).2 (.inr ⟨string, ?_⟩)
        · change isOfLine scan.token = true
          rw [string]
          rfl
        · simp [reportsOf, Scan.lexed, defect, Lexed.located]
    · intro ends
      have ends : (decide (0 < scan.absorbed) && lexer.depth == 0) = true := ends
      simp only [ends, Bool.not_true]

theorem moveInLine_advances (follows : Follows source handed lexer)
    (settled : lexer.blocks.owed = 0) (inLine : lexer.atLineStart = false) :
    Advances file source handed (lexer.moveInLine file) := by
  have stands := follows.stands.skipWhile isBlankInLine
  have none : ¬0 < lexer.blocks.owed := by omega
  have further : ∀ {cursor : Cursor}, cursor.Stands source →
      Follows source handed { lexer with cursor } := fun stands =>
    follows.pass stands rfl rfl follows.start follows.owed
  simp only [moveInLine]
  generalize lexer.cursor.skipWhile isBlankInLine = cursor at stands ⊢
  split
  · rename_i ended
    exact moveAtEnd_advances (further stands) (by simpa using ended)
  · split
    · exact advances_comment (further (stands.skip _)) cursor
    · split
      · exact moveAtLineFeed_advances (further stands) settled inLine
      · split
        · exact advances_pass (further (stands.skip _))
        · exact moveAtToken_advances (further stands) settled

theorem move_advances (follows : Follows source handed lexer) :
    Advances file source handed (lexer.move file) := by
  unfold move
  split
  · rename_i owed
    have fresh := follows.owed owed
    obtain ⟨closed, starts⟩ := follows.fresh fresh
    rw [follows.depth] at closed
    refine advances_quiet ?_ rfl ⟨nofun, nofun, fun _ => .inr ⟨closed, starts⟩⟩
    exact follows.pass follows.stands rfl rfl follows.start fun _ => fresh
  · rename_i settled
    have settled : lexer.blocks.owed = 0 := by omega
    split
    · rename_i atStart
      exact moveAtLineStart_advances follows atStart
    · rename_i inLine
      exact moveInLine_advances follows settled (by simpa using inLine)

theorem start_follows (source : List Char) : Follows source [] (.start source) where
  stands := Cursor.stands_ofText source
  depth := rfl
  filled := nofun
  fresh := fun _ => ⟨rfl, nofun⟩
  start := fun _ => rfl
  owed := fun _ => rfl

end Lexer

theorem layout_placed (file : FileId) (source : List Char) :
    reader.Places file (Lexer.Follows source) (Lexer.Allows file source) where
  item := fun _ _ follows => (Lexer.move_advances follows).item
  move := fun _ _ follows => (Lexer.move_advances follows).state

/-! Comments are dropped or kept. -/

section Shown

variable {shows : Lexed → Bool}
  (hides : ∀ item : Lexed, shows item = false → item.token = .comment) (items : List Lexed)

include hides

theorem bracketsOpen_shown :
    bracketsOpen ((items.filter shows).map Lexed.located) = bracketsOpen (items.map Lexed.located) := by
  unfold bracketsOpen
  generalize 0 = depth
  induction items generalizing depth with
  | nil => rfl
  | cons item items induction =>
    cases keeps : shows item with
    | true =>
      rw [List.filter_cons_of_pos keeps]
      exact induction _
    | false =>
      rw [List.filter_cons_of_neg (by simp [keeps]), induction]
      simp [Lexed.located, hides item keeps, Lexer.depthAfter, Token.isOpening, Token.isClosing]

theorem startsLine_shown (reports : List Diagnostic) :
    StartsLine ((items.filter shows).map Lexed.located) reports ↔
      StartsLine (items.map Lexed.located) reports := by
  have same : ((items.filter shows).map Lexed.located).filter (fun found => isOfLine found.1) =
      (items.map Lexed.located).filter fun found => isOfLine found.1 := by
    rw [List.filter_map, List.filter_map, List.filter_filter]
    refine congrArg _ (List.filter_congr fun item _ => ?_)
    cases keeps : shows item with
    | true => simp
    | false => simp [Lexed.located, hides item keeps, isOfLine]
  rw [StartsLine, StartsLine, same]

theorem HasWritten.shown (filled : HasWritten (items.map Lexed.located)) :
    HasWritten ((items.filter shows).map Lexed.located) := by
  obtain ⟨earlier, word, later, split, written, inLine⟩ := filled
  obtain ⟨front, rest, rfl, rfl, rest'⟩ := List.map_eq_append_iff.1 split
  obtain ⟨item, back, rfl, rfl, rfl⟩ := List.map_eq_cons_iff.1 rest'
  have keeps : shows item = true := by
    by_contra hidden
    have comment : item.token = .comment := hides item (by simpa using hidden)
    rw [show item.located.1 = .comment from comment] at written
    cases written
  refine ⟨(front.filter shows).map Lexed.located, item.located, (back.filter shows).map Lexed.located,
    ?_, written, ?_⟩
  · rw [List.filter_append, List.filter_cons_of_pos keeps, List.map_append, List.map_cons]
  · intro other member
    obtain ⟨found, among, rfl⟩ := List.mem_map.1 member
    exact inLine _ (List.mem_map_of_mem (List.mem_filter.1 among).1)

end Shown

/-- Wherever a layout token stands in a Python text, the tokens in front of it allow it there. With a
bracket open no line ends and no block is opened, and blocks are closed at the end of the text alone. The end
of a line has a written token in front of it. Away from the end of the text, blocks are opened and closed
where a line starts. -/
theorem layout_stands_between_lines (context : Context) (source : List Char)
    {before behind : List (Token × Span)} {token : Token} {span : Span}
    (split : (context.lex .python source).1 = before ++ (token, span) :: behind) :
    let reports :=
      (context.lex .python source).2.diagnostics.toList.drop context.diagnostics.size
    let ending := Span.point (Position.origin.afterAll source) context.file
    (0 < bracketsOpen before →
        token ≠ .newline ∧ token ≠ .indent ∧ (token = .dedent → span = ending)) ∧
      (token = .newline → HasWritten before) ∧
      (token = .indent ∨ token = .dedent → span ≠ ending → StartsLine before reports) := by
  intro reports ending
  have every : reports = reportsOf (reader.items context.file (Lexer.start source)) := by
    simp [reports, Context.lex, Context.diagnostics_absorbAll, TokenSource.ofText, TokenSource.stream, reader]
  obtain ⟨first, rest, shownItems, rfl, splitRest⟩ := List.map_eq_append_iff.1 split
  obtain ⟨item, later, rfl, located, -⟩ := List.map_eq_cons_iff.1 splitRest
  obtain ⟨rfl, rfl⟩ := Prod.mk.injEq .. ▸ located
  obtain ⟨front, others, items, rfl, shownRest⟩ := List.filter_eq_append_iff.1 shownItems
  obtain ⟨skipped, back, rfl, hidden, -, -⟩ := List.filter_eq_cons_iff.1 shownRest
  have hides : ∀ item : Lexed, (context.keepComments || item.token != .comment) = false →
      item.token = .comment := by simp
  have none : skipped.filter (fun item => context.keepComments || item.token != .comment) = [] :=
    List.filter_eq_nil_iff.2 hidden
  have whole : reader.items context.file (Lexer.start source) =
      (front ++ skipped) ++ item :: back := by rw [List.append_assoc]; exact items
  have allows := (layout_placed context.file source).items (Lexer.start_follows source) whole
  rw [List.nil_append] at allows
  have same : front.filter (fun item => context.keepComments || item.token != .comment) =
      (front ++ skipped).filter fun item => context.keepComments || item.token != .comment := by
    rw [List.filter_append, none, List.append_nil]
  have subset : reportsOf (front ++ skipped) ⊆ reports := by
    rw [every, whole]
    simp [reportsOf]
  change (0 < bracketsOpen ((front.filter _).map Lexed.located) → _) ∧
    (_ → HasWritten ((front.filter _).map Lexed.located)) ∧
    (_ → _ → StartsLine ((front.filter _).map Lexed.located) _)
  rw [same, bracketsOpen_shown hides, startsLine_shown hides]
  refine ⟨fun inside => ⟨fun kind => ?_, fun kind => ?_, fun kind => ?_⟩, fun kind => ?_, ?_⟩
  · have closed := (allows.newline kind).1
    omega
  · have closed := (allows.indent kind).1
    omega
  · rcases allows.dedent kind with last | ⟨closed, -⟩
    · exact last
    · omega
  · exact (allows.newline kind).2.shown hides
  · rintro (kind | kind) inner
    · exact (allows.indent kind).2.mono subset
    · rcases allows.dedent kind with last | ⟨-, starts⟩
      · exact absurd last inner
      · exact starts.mono subset

/-- A string without a closing quote ends its line, so the line behind it may close a block, although
no end of a line is handed out in between. -/
theorem layout_stands_behind_cut_string :
    let source := "if (a,\n b): # c\n  x\n  'y\n z".toList
    let lexed := ({} : Context).lex .python source
    let place : Span := ⟨.single, ⟨4, 1⟩, ⟨4, 1⟩⟩
    lexed.1 = lexed.1.take 12 ++ (.dedent, place) :: lexed.1.drop 13 ∧
      place ≠ .point (Position.origin.afterAll source) .single ∧
      ((lexed.1.take 12).map Prod.fst).getLast? = some .string ∧
      StartsLine (lexed.1.take 12) lexed.2.diagnostics.toList := by
  intro source lexed place
  have split : lexed.1 = lexed.1.take 12 ++ (.dedent, place) :: lexed.1.drop 13 := by decide +kernel
  have inner : place ≠ .point (Position.origin.afterAll source) .single := by decide +kernel
  have starts := (layout_stands_between_lines {} source split).2.2 (.inr rfl) inner
  exact ⟨split, inner, by decide +kernel, starts⟩

end Python

end Offside
