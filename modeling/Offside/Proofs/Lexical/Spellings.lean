import Offside.Proofs.Layout.Readings

/-!
The text of every token can be had again. A kind of token either has one spelling, which is then what
the source says where the token stands, or its text is recorded under the place where the token starts.
The exceptions are inequality, which has a second spelling, and strings of Python, whose recorded text
lacks the line break that ends an unfinished one.
-/

namespace Offside

set_option autoImplicit false

open Offside.Lexical

namespace Token

/-- A text is the spelling of a kind of token. -/
def Spells (token : Token) (text : List Char) : Prop :=
  text = token.display.toList ∨ token = .notEquals ∧ text = ['<', '>']

def recorded : List Token :=
  [.identifier, .properIdentifier, .operatorSymbol, .constructorSymbol, .minus, .dot, .colon,
   .integer, .float, .string, .character, .comment]

theorem mem_recorded (token : Token) :
    token ∈ recorded ↔ (Lexeme.Category.ofToken? token).isSome = true := by
  cases token <;> decide

theorem spells_of_spelled? {spellings : List (String × Token)} {text : List Char} {token : Token}
    (agree : ∀ entry ∈ spellings, entry.2.display = entry.1)
    (found : spelled? spellings text = some token) : token.Spells text := by
  obtain ⟨entry, member, written, rfl⟩ := mem_of_spelled? found
  rw [Spells, agree entry member]
  exact .inl written.symm

end Token

namespace Lexical

/-- What a scan found is spelled as its kind of token is, if that has a spelling. -/
def Scan.Spelled (scan : Scan) (text : List Char) : Prop :=
  Lexeme.Category.ofToken? scan.token = none → scan.token ≠ .invalid →
    scan.token.Spells (text.take scan.width)

theorem Scan.spelled_of_recorded {scan : Scan} {text : List Char}
    (recorded : (Lexeme.Category.ofToken? scan.token).isSome = true) : scan.Spelled text := by
  intro unrecorded
  rw [unrecorded] at recorded
  cases recorded

theorem take_takeWhile (accepts : Char → Bool) (text : List Char) :
    text.take (text.takeWhile accepts).length = text.takeWhile accepts :=
  (List.prefix_iff_eq_take.1 (List.takeWhile_prefix accepts)).symm

/-- A word or an operator: one of the given kinds under its spelling, or else a kind that is
recorded. -/
theorem Scan.spelled_of_run {spellings : List (String × Token)} {accepts : Char → Bool}
    {text : List Char} {other : Token}
    (agree : ∀ entry ∈ spellings, entry.2.display = entry.1)
    (recorded : (Lexeme.Category.ofToken? other).isSome = true) :
    Scan.Spelled
      { token := (Token.spelled? spellings (text.takeWhile accepts)).getD other
        width := (text.takeWhile accepts).length } text := by
  cases found : Token.spelled? spellings (text.takeWhile accepts) with
  | none => exact Scan.spelled_of_recorded recorded
  | some token =>
    intro _ _
    rw [take_takeWhile]
    exact Token.spells_of_spelled? agree found

end Lexical

namespace Python

theorem keywords_display : ∀ entry ∈ keywords, entry.2.display = entry.1 := by decide

theorem symbols_spells : ∀ entry ∈ symbols, entry.2.Spells entry.1.toList := by
  unfold Token.Spells
  decide

theorem scanSymbol_spelled (text : List Char) : (scanSymbol text).Spelled text := by
  unfold scanSymbol
  split
  · rename_i spelling token found
    intro _ _
    have matching := List.find?_some found
    have starts : spelling.toList <+: text := List.isPrefixOf_iff_prefix.1 matching
    change token.Spells (text.take spelling.length)
    rw [← String.length_toList, ← List.prefix_iff_eq_take.1 starts]
    exact symbols_spells _ (List.mem_of_find?_eq_some found)
  · intro _ invalid
    exact absurd rfl invalid

theorem scan_spelled (text : List Char) : (scan text).Spelled text := by
  unfold scan
  split
  · apply Scan.spelled_of_recorded
    rcases scanNumber_kind text with kind | kind <;> rw [kind] <;> rfl
  · split
    · apply Scan.spelled_of_recorded
      rw [scanString_kind]
      rfl
    · split
      · exact Scan.spelled_of_run keywords_display rfl
      · exact scanSymbol_spelled text

end Python

namespace Haskell

theorem keywords_display : ∀ entry ∈ keywords, entry.2.display = entry.1 := by decide

theorem reservedOperators_display : ∀ entry ∈ reservedOperators, entry.2.display = entry.1 := by
  decide

theorem delimiters_display : ∀ entry ∈ delimiters, entry.2.display = entry.1 := by decide

theorem scanVariable_spelled (text : List Char) : (scanVariable text).Spelled text := by
  unfold scanVariable
  simp only
  split
  · rename_i underscore
    intro _ _
    left
    rw [take_takeWhile, underscore]
    rfl
  · exact Scan.spelled_of_run keywords_display rfl

theorem scanOperator_spelled (text : List Char) : (scanOperator text).Spelled text := by
  unfold scanOperator
  simp only
  split
  · exact Scan.spelled_of_run reservedOperators_display rfl
  · exact Scan.spelled_of_run reservedOperators_display rfl

theorem scan_spelled (afterProper : Bool) {text : List Char} (remains : text ≠ []) :
    (scan afterProper text).Spelled text := by
  have scanned := scan_scanned afterProper text
  generalize scan afterProper text = found at scanned ⊢
  cases scanned with
  | ended => exact absurd rfl remains
  | delimiter rest spelled =>
    intro _ _
    exact Token.spells_of_spelled? delimiters_display spelled
  | @number first rest =>
    apply Scan.spelled_of_recorded
    rcases scanNumber_kind (first :: rest) with kind | kind <;> rw [kind] <;> rfl
  | word => exact scanVariable_spelled _
  | operator => exact scanOperator_spelled _
  | unknown =>
    intro _ invalid
    exact absurd rfl invalid
  | blockComment | lineComment | string | character | properWord | qualifyingDot =>
    exact Scan.spelled_of_recorded rfl

end Haskell

namespace Language

def recordedText (language : Language) (token : Token) (text : List Char) : List Char :=
  if language = .python ∧ token = .string then Python.Lexer.withoutLineEnd text else text

end Language

namespace Lexical

variable {language : Language} {source : List Char} {file : FileId}

/-- A token of some width with the text that the source has where the token stands: the text is
recorded there and nowhere else, and is the spelling of a token that has one. -/
structure Lexed.Copies (language : Language) (source : List Char) (item : Lexed)
    (text : List Char) : Prop where
  wide : item.span.isPoint = false
  slice : item.span.slice? source = some text
  entries : item.entries =
    [⟨item.token, item.span.start, String.ofList (language.recordedText item.token text)⟩]
  spelled : Lexeme.Category.ofToken? item.token = none → item.token ≠ .invalid →
    item.token.Spells text

structure Lexed.IsPlain (item : Lexed) : Prop where
  shape : item.span.isPoint = true ∨ item.token = .newline
  token : Lexeme.Category.ofToken? item.token = none
  entries : ∀ entry ∈ item.entries, entry.lexeme? = none

theorem Lexed.isPlain_silent {token : Token} {span : Span}
    (shape : span.isPoint = true ∨ token = .newline)
    (unrecorded : Lexeme.Category.ofToken? token = none) :
    (Lexed.silent token span).IsPlain where
  shape := shape
  token := unrecorded
  entries := fun entry member => by cases member

theorem Scan.lexed_copies {cursor : Cursor} {scan : Scan} (stands : cursor.Stands source)
    (moves : cursor.position < (cursor.skip scan.width).position)
    (spelled : scan.Spelled cursor.ahead) (file : FileId) :
    (scan.lexed file cursor
      (language.recordedText scan.token (cursor.ahead.take scan.width))).Copies language source
        (cursor.ahead.take scan.width) where
  wide := decide_eq_false (Position.ne_of_lt moves)
  slice := stands.slice?_ahead file scan.width
  entries := rfl
  spelled := spelled

/-- What was read of a text beside what was handed out: the tokens of some width are the same, and so
is what there is to record. -/
structure Accounts (language : Language) (source : List Char) (items readings : List Lexed) :
    Prop where
  entries : entriesOf items = entriesOf readings
  wide : ∀ found : Token × Span, found.2.isPoint = false →
    (found ∈ items.map Lexed.located ↔ found ∈ readings.map Lexed.located)
  apart : Entry.AreApart (entriesOf readings)
  readings : ∀ reading ∈ readings, (∃ text, reading.Copies language source text) ∨ reading.IsPlain

namespace Accounts

variable {items readings : List Lexed}

theorem lexemeAt (accounts : Accounts language source items readings) {context : Context}
    (fresh : context.lexemes = .empty) (place : Position) (lexeme : Lexeme) :
    (context.absorbAll items).lexemeAt place = some lexeme ↔
      ∃ reading ∈ readings, ∃ entry ∈ reading.entries, context.records entry = true ∧
        entry.place = place ∧ entry.lexeme? = some lexeme := by
  have apart : Entry.AreApart ((entriesOf readings).filter context.records) :=
    accounts.apart.sublist List.filter_sublist
  rw [Context.lexemeAt, Context.absorbAll_eq, fresh, accounts.entries,
    LexemeTable.get?_recordAll_empty apart]
  constructor
  · rintro ⟨entry, member, here, found⟩
    obtain ⟨among, recorded⟩ := List.mem_filter.1 member
    obtain ⟨reading, read, own⟩ := List.mem_flatMap.1 among
    exact ⟨reading, read, entry, own, recorded, here, found⟩
  · rintro ⟨reading, read, entry, own, recorded, here, found⟩
    exact ⟨entry, List.mem_filter.2 ⟨List.mem_flatMap.2 ⟨reading, read, own⟩, recorded⟩, here,
      found⟩

/-- A token that is shown and of a kind that is recorded has its text recorded. -/
theorem lexemeAt_reading (accounts : Accounts language source items readings) {context : Context}
    (fresh : context.lexemes = .empty) {reading : Lexed} (read : reading ∈ readings)
    {text : List Char} (copies : reading.Copies language source text)
    {category : Lexeme.Category} (kind : Lexeme.Category.ofToken? reading.token = some category)
    (shown : (context.keepComments || reading.token != .comment) = true) :
    (context.absorbAll items).lexemeAt reading.span.start =
      some ⟨category, String.ofList (language.recordedText reading.token text)⟩ := by
  rw [accounts.lexemeAt fresh]
  have own : (⟨reading.token, reading.span.start,
      String.ofList (language.recordedText reading.token text)⟩ : Entry) ∈ reading.entries := by
    rw [copies.entries]
    exact List.mem_singleton_self _
  exact ⟨reading, read, _, own, shown, rfl, by simp [Entry.lexeme?, kind]⟩

/-- What is recorded at a place is the text of a token that starts there. -/
theorem reading_of_lexemeAt (accounts : Accounts language source items readings)
    {context : Context} (fresh : context.lexemes = .empty) {place : Position} {lexeme : Lexeme}
    (found : (context.absorbAll items).lexemeAt place = some lexeme) :
    ∃ reading ∈ readings, reading.span.isPoint = false ∧ reading.span.start = place ∧
      (Lexeme.Category.ofToken? reading.token).isSome = true ∧
        (context.keepComments || reading.token != .comment) = true := by
  rw [accounts.lexemeAt fresh] at found
  obtain ⟨reading, read, entry, own, recorded, here, kind⟩ := found
  rcases accounts.readings reading read with ⟨text, copies⟩ | plain
  · rw [copies.entries, List.mem_singleton] at own
    subst own
    refine ⟨reading, read, copies.wide, here, ?_, recorded⟩
    simp only [Entry.lexeme?, Option.map_eq_some_iff] at kind
    obtain ⟨category, kind, -⟩ := kind
    rw [kind]
    rfl
  · rw [plain.entries entry own] at kind
    cases kind

/-- A token of some width was read with its text, unless it ends a line. -/
theorem copies (accounts : Accounts language source items readings) {found : Token × Span}
    (member : found ∈ items.map Lexed.located) (wide : found.2.isPoint = false)
    (inLine : found.1 ≠ .newline) :
    ∃ reading ∈ readings, reading.located = found ∧
      ∃ text, reading.Copies language source text := by
  obtain ⟨reading, read, rfl⟩ := List.mem_map.1 ((accounts.wide found wide).1 member)
  refine ⟨reading, read, rfl, ?_⟩
  rcases accounts.readings reading read with copies | plain
  · exact copies
  · have point := plain.shape.resolve_right inLine
    rw [show reading.span.isPoint = false from wide] at point
    cases point

end Accounts

end Lexical

namespace Lexical.Reader

variable {State : Type} {reader : Reader State} {file : FileId}

/-- A move in a text: what it hands out copies the stretch of text that it passes, or is plain and
records nothing. -/
structure Recounts (language : Language) (source : List Char) (cursor : State → Cursor)
    (start : Position) (move : Move State) : Prop where
  stands : (cursor move.state).Stands source
  reached : start ≤ (cursor move.state).position
  item : ∀ item ∈ move.item,
    (item.entries = [] ∧ item.IsPlain) ∨
      (∃ text, item.Copies language source text) ∧ start ≤ item.span.start ∧
        item.span.start < (cursor move.state).position

section Recounts

variable {language : Language} {source : List Char} {cursor : State → Cursor} {start : Position}
  {state : State}

theorem recounts_pass (stands : (cursor state).Stands source)
    (reached : start ≤ (cursor state).position) :
    Recounts language source cursor start (.pass state) where
  stands := stands
  reached := reached
  item := fun item member => by cases member

theorem recounts_plain {item : Lexed} (plain : item.IsPlain) (silent : item.entries = [])
    (stands : (cursor state).Stands source) (reached : start ≤ (cursor state).position) :
    Recounts language source cursor start (.emit item state) where
  stands := stands
  reached := reached
  item := fun other member => by
    cases member
    exact Or.inl ⟨silent, plain⟩

theorem recounts_scan {before : Cursor} {scan : Scan} {text : List Char}
    (stands : before.Stands source) (reached : start ≤ before.position)
    (moves : 0 < scan.width) (remains : before.ahead ≠ []) (spelled : scan.Spelled before.ahead)
    (written : text = language.recordedText scan.token (before.ahead.take scan.width))
    (standsAfter : (cursor state).Stands source)
    (passed : (before.skip scan.width).position ≤ (cursor state).position) :
    Recounts language source cursor start (.emit (scan.lexed file before text) state) where
  stands := standsAfter
  reached := Position.le_trans reached
    (Position.le_trans (Cursor.position_le_skip _ _) passed)
  item := fun other member => by
    cases member
    have further := Cursor.position_lt_skip moves remains
    rw [written]
    exact Or.inr ⟨⟨_, Scan.lexed_copies stands further spelled file⟩, reached,
      Position.lt_of_lt_of_le further passed⟩

theorem Recounts.recordsBetween {move : Move State}
    (recounts : Recounts language source cursor start move) :
    RecordsBetween (fun state => (cursor state).position) start move where
  reached := recounts.reached
  entries := by
    intro item member
    rcases recounts.item item member with plain | ⟨⟨text, copies⟩, after, before⟩
    · exact Or.inl plain.1
    · exact Or.inr ⟨_, copies.entries, after, before⟩

/-- A reader whose every move recounts the text accounts for all that it hands out. -/
theorem accounts_items
    (step : ∀ state, (cursor state).Stands source →
      Recounts language source cursor (cursor state).position (reader.move file state))
    (state : State) (stands : (cursor state).Stands source) :
    Accounts language source (reader.items file state) (reader.items file state) where
  entries := rfl
  wide := fun _ _ => Iff.rfl
  apart := Entry.areApart_of_increasing
    (increasing_entries
      (fun state stands => ⟨(step state stands).recordsBetween, (step state stands).stands⟩)
      state stands).1
  readings := by
    have each : ∀ state, (cursor state).Stands source →
        (∀ item ∈ (reader.move file state).item,
          (∃ text, item.Copies language source text) ∨ item.IsPlain) ∧
            (cursor (reader.move file state).state).Stands source := by
      intro state stands
      refine ⟨?_, (step state stands).stands⟩
      intro item member
      rcases (step state stands).item item member with plain | copies
      · exact Or.inr plain.2
      · exact Or.inl copies.1
    exact Reader.mem_items each state stands

end Recounts

end Lexical.Reader

namespace Python

namespace Lexer

variable {source : List Char} {lexer : Lexer}

theorem commentItem_recounts {cursor : Cursor} {after : Lexer} {start : Position}
    (stands : cursor.Stands source) (reached : start ≤ cursor.position)
    (comment : cursor.startsWith '#' = true) (file : FileId)
    (standsAfter : after.cursor.Stands source)
    (passed : (afterComment cursor).position ≤ after.cursor.position) :
    Reader.Recounts .python source Lexer.cursor start (.emit (commentItem file cursor) after) := by
  have shorter := afterComment_shorter comment
  have moves : 0 < (commentScan cursor.ahead).width := by
    apply Nat.pos_of_ne_zero
    intro still
    rw [afterComment, still] at shorter
    exact Nat.lt_irrefl _ shorter
  have remains : cursor.ahead ≠ [] := by
    intro ended
    simp [ended] at shorter
  exact Reader.recounts_scan stands reached moves remains
    (Scan.spelled_of_recorded rfl) (by simp [Language.recordedText, commentScan])
    standsAfter passed

theorem moveAtLineStart_recounts (stands : lexer.cursor.Stands source) (file : FileId) :
    Reader.Recounts .python source Lexer.cursor lexer.cursor.position
      (lexer.moveAtLineStart file) := by
  have skipped := stands.skipWhile Cursor.isIndentation
  have reached : lexer.cursor.position ≤
      (lexer.cursor.skipWhile Cursor.isIndentation).position := Cursor.position_le_skip _ _
  simp only [moveAtLineStart]
  generalize lexer.cursor.skipWhile Cursor.isIndentation = cursor at skipped reached ⊢
  have point : (Span.point cursor.position file).isPoint = true := Span.isPoint_point _ _
  split
  · exact Reader.recounts_pass skipped reached
  · split
    · exact Reader.recounts_pass (skipped.skip _)
        (Position.le_trans reached (Cursor.position_le_skip _ _))
    · split
      · rename_i comment
        exact commentItem_recounts skipped reached comment file ((skipped.skip _).skip _)
          (Cursor.position_le_skip _ _)
      · split
        · exact Reader.recounts_pass skipped reached
        · exact Reader.recounts_plain (Lexed.isPlain_silent (Or.inl point) rfl) rfl skipped reached
        · exact Reader.recounts_plain (Lexed.isPlain_silent (Or.inl point) rfl) rfl skipped reached
        · exact Reader.recounts_plain ⟨Or.inl point, rfl, by simp⟩ rfl skipped reached

theorem moveAtEnd_recounts (stands : lexer.cursor.Stands source) {start : Position}
    (reached : start ≤ lexer.cursor.position) (file : FileId) :
    Reader.Recounts .python source Lexer.cursor start (lexer.moveAtEnd file) := by
  have point : (lexer.here file).isPoint = true := Span.isPoint_point _ _
  unfold moveAtEnd
  split
  · exact Reader.recounts_plain (Lexed.isPlain_silent (Or.inl point) rfl) rfl stands reached
  · exact Reader.recounts_plain (Lexed.isPlain_silent (Or.inl point) rfl) rfl stands reached

theorem moveAtLineFeed_recounts (stands : lexer.cursor.Stands source) {start : Position}
    (reached : start ≤ lexer.cursor.position) (file : FileId) :
    Reader.Recounts .python source Lexer.cursor start (lexer.moveAtLineFeed file) := by
  have further := Position.le_trans reached (Cursor.position_le_advance lexer.cursor)
  simp only [moveAtLineFeed]
  split
  · exact Reader.recounts_pass stands.advance further
  · split
    · exact Reader.recounts_plain (Lexed.isPlain_silent (Or.inr rfl) rfl) rfl stands.advance
        further
    · exact Reader.recounts_pass stands.advance further

theorem moveAtToken_recounts (stands : lexer.cursor.Stands source) {start : Position}
    (reached : start ≤ lexer.cursor.position) (remains : lexer.cursor.ahead ≠ [])
    (file : FileId) :
    Reader.Recounts .python source Lexer.cursor start (lexer.moveAtToken file) := by
  have further : (lexer.cursor.skip (scan lexer.cursor.ahead).width).position ≤
      (lexer.cursor.skip ((scan lexer.cursor.ahead).width +
        (scan lexer.cursor.ahead).absorbed)).position := by
    rw [Cursor.skip_add]
    exact Cursor.position_le_skip _ _
  exact Reader.recounts_scan stands reached (scan_width_pos _) remains (scan_spelled _)
    (by simp [Language.recordedText, recordedText]) (stands.skip _) further

theorem moveInLine_recounts (stands : lexer.cursor.Stands source) (file : FileId) :
    Reader.Recounts .python source Lexer.cursor lexer.cursor.position
      (lexer.moveInLine file) := by
  have skipped := stands.skipWhile isBlankInLine
  have reached : lexer.cursor.position ≤ (lexer.cursor.skipWhile isBlankInLine).position :=
    Cursor.position_le_skip _ _
  simp only [moveInLine]
  generalize lexer.cursor.skipWhile isBlankInLine = cursor at skipped reached ⊢
  split
  · exact moveAtEnd_recounts skipped reached file
  · rename_i remains
    split
    · rename_i comment
      exact commentItem_recounts skipped reached comment file (skipped.skip _)
        (Position.le_refl _)
    · split
      · exact moveAtLineFeed_recounts skipped reached file
      · split
        · exact Reader.recounts_pass (skipped.skip _)
            (Position.le_trans reached (Cursor.position_le_skip _ _))
        · exact moveAtToken_recounts skipped reached (by simpa using remains) file

theorem move_recounts (stands : lexer.cursor.Stands source) (file : FileId) :
    Reader.Recounts .python source Lexer.cursor lexer.cursor.position (lexer.move file) := by
  have point : (lexer.here file).isPoint = true := Span.isPoint_point _ _
  unfold move
  split
  · exact Reader.recounts_plain (Lexed.isPlain_silent (Or.inl point) rfl) rfl stands
      (Position.le_refl _)
  · split
    · exact moveAtLineStart_recounts stands file
    · exact moveInLine_recounts stands file

end Lexer

theorem stream_accounts (file : FileId) (source : List Char) :
    Lexical.Accounts .python source (reader.stream file source).items
      (reader.stream file source).items :=
  Reader.accounts_items (fun _ stands => Lexer.move_recounts stands file) (Lexer.start source)
    (Cursor.stands_ofText source)

end Python

namespace Haskell

namespace Lexer

variable {source : List Char}

theorem nextItem_recounts {lexer : Lexer} (stands : lexer.cursor.Stands source) (file : FileId) :
    (∃ text, (lexer.nextItem file).Copies .haskell source text) ∨
      (lexer.nextItem file).IsPlain := by
  have placed : lexer.place.Stands source := stands.skipWhile _
  by_cases ended : lexer.place.ahead = []
  · right
    have final := nextScan_ended ended
    refine ⟨Or.inl ?_, ?_, ?_⟩
    · simp [nextItem, final, Scan.lexed, spanAhead, Span.isPoint, Cursor.skip]
    · simp [nextItem, final, Scan.lexed, Lexeme.Category.ofToken?]
    · simp [nextItem, final, Scan.lexed, Entry.lexeme?, Lexeme.Category.ofToken?]
  · left
    have text : lexer.place.ahead.take lexer.nextScan.width =
        Language.haskell.recordedText lexer.nextScan.token
          (lexer.place.ahead.take lexer.nextScan.width) := by simp [Language.recordedText]
    rw [nextItem, text]
    exact ⟨_, Scan.lexed_copies placed (nextScan_moves ended) (scan_spelled _ ended) file⟩

theorem readings_recount {lexer : Lexer} (stands : lexer.cursor.Stands source) (file : FileId) :
    ∀ reading ∈ lexer.readings file,
      (∃ text, reading.Copies .haskell source text) ∨ reading.IsPlain := by
  fun_induction Lexer.readings file lexer with
  | case1 lexer ended =>
    intro reading member
    rw [List.mem_singleton.1 member]
    exact nextItem_recounts stands file
  | case2 lexer inner shorter induction =>
    refine List.forall_mem_cons.2 ⟨nextItem_recounts stands file, induction ?_⟩
    rw [cursor_pastNext]
    exact (stands.skipWhile _).skip _

/-- Each reading records at its own start, and these follow one another. -/
theorem readings_increasing (file : FileId) (lexer : Lexer) :
    (entriesOf (lexer.readings file)).Pairwise
        (fun earlier later => earlier.place < later.place) ∧
      ∀ entry ∈ entriesOf (lexer.readings file), lexer.cursor.position ≤ entry.place := by
  fun_induction Lexer.readings file lexer with
  | case1 lexer ended =>
    refine ⟨List.pairwise_singleton _ _, ?_⟩
    intro entry member
    exact lexer.nextItem_entries file entry (by simpa [entriesOf] using member)
  | case2 lexer inner shorter induction =>
    obtain ⟨increasing, behind⟩ := induction
    have further := position_lt_pastNext inner
    constructor
    · refine List.pairwise_cons.2 ⟨?_, increasing⟩
      intro entry member
      exact Position.lt_of_lt_of_le further (behind entry member)
    · refine List.forall_mem_cons.2 ⟨lexer.position_le_place, ?_⟩
      intro entry member
      exact Position.le_trans lexer.position_le_pastNext (behind entry member)

end Lexer

theorem stream_accounts (file : FileId) (source : List Char) :
    Lexical.Accounts .haskell source (reader.stream file source).items
      (sourceReadings file source) where
  entries := stream_entries file source
  wide := by
    intro found wide
    have widths := Lexer.scanned_wide file (Lexer.start source)
    have inner : found ∈ (scannedTokens file source).map Written.located →
        found.1 ≠ .endOfInput := by
      intro member
      obtain ⟨written, scanned, rfl⟩ := List.mem_map.1 member
      have shape := widths written scanned
      rw [show written.span.isPoint = false from wide] at shape
      exact fun final => by simp [show written.token = .endOfInput from final] at shape
    have same := congrArg (found ∈ ·) (Layout.spread_wide widths {})
    simp only [List.mem_filter, wide, Bool.not_false, and_true, bne_iff_ne, eq_iff_iff] at same
    rw [stream_located, sourceReadings, Lexer.located_readings]
    exact same.trans (and_iff_left_of_imp inner)
  apart := Entry.areApart_of_increasing (Lexer.readings_increasing file _).1
  readings := Lexer.readings_recount (Cursor.stands_ofText source) file

end Haskell

/-- What is handed out of a text is accounted for by what was read. -/
theorem exists_accounts (language : Language) (file : FileId) (source : List Char) :
    ∃ readings, Accounts language source
      ((TokenSource.ofText language source).stream file).items readings := by
  cases language with
  | python => exact ⟨_, Python.stream_accounts file source⟩
  | haskell => exact ⟨_, Haskell.stream_accounts file source⟩

theorem mem_lex {context : Context} {language : Language} {source : List Char}
    {found : Token × Span} :
    found ∈ (context.lex language source).1 ↔
      found ∈ ((TokenSource.ofText language source).stream context.file).items.map Lexed.located ∧
        (context.keepComments || found.1 != .comment) = true := by
  simp only [Context.lex, List.mem_map, List.mem_filter]
  constructor
  · rintro ⟨item, ⟨member, shown⟩, rfl⟩
    exact ⟨⟨item, member, rfl⟩, shown⟩
  · rintro ⟨⟨item, member, rfl⟩, shown⟩
    exact ⟨item, ⟨member, shown⟩, rfl⟩

/-- After all of a text was read into a fresh context, the text of every token can be had again: the
recorded lexemes stand exactly where tokens of a recorded kind start, each with the text that the
source has there, and every other token is spelled in the source as its kind is. -/
theorem texts_recoverable (language : Language) (source : List Char) (file : FileId)
    (keepComments : Bool) :
    let lexed := ({ file, keepComments } : Context).lex language source
    (∀ place, (lexed.2.lexemeAt place).isSome = true ↔
        ∃ token span, (token, span) ∈ lexed.1 ∧ span.isPoint = false ∧ span.start = place ∧
          token ∈ Token.recorded) ∧
      (∀ token span, (token, span) ∈ lexed.1 → span.isPoint = false → token ∈ Token.recorded →
        ∃ category text, Lexeme.Category.ofToken? token = some category ∧
          span.slice? source = some text ∧
          lexed.2.lexemeAt span.start =
            some ⟨category, String.ofList (language.recordedText token text)⟩) ∧
      ∀ token span, (token, span) ∈ lexed.1 → span.isPoint = false → token ∉ Token.recorded →
        token ≠ .invalid → token ≠ .newline →
        ∃ text, span.slice? source = some text ∧
          (text = token.display.toList ∨ token = .notEquals ∧ text = ['<', '>']) := by
  intro lexed
  obtain ⟨readings, accounts⟩ := exists_accounts language file source
  have recovered : ∀ token span, (token, span) ∈ lexed.1 → span.isPoint = false →
      token ∈ Token.recorded →
        ∃ category text, Lexeme.Category.ofToken? token = some category ∧
          span.slice? source = some text ∧
          lexed.2.lexemeAt span.start =
            some ⟨category, String.ofList (language.recordedText token text)⟩ := by
    intro token span member wide recorded
    rw [Token.mem_recorded] at recorded
    obtain ⟨category, kind⟩ := Option.isSome_iff_exists.1 recorded
    obtain ⟨handed, shown⟩ := mem_lex.1 member
    have inLine : token ≠ .newline := by
      rintro rfl
      cases kind
    obtain ⟨reading, read, same, text, copies⟩ := accounts.copies handed wide inLine
    cases same
    have fresh : ({ file, keepComments } : Context).lexemes = .empty := rfl
    exact ⟨category, text, kind, copies.slice,
      accounts.lexemeAt_reading fresh read copies kind shown⟩
  refine ⟨?_, recovered, ?_⟩
  · intro place
    constructor
    · intro found
      obtain ⟨lexeme, found⟩ := Option.isSome_iff_exists.1 found
      obtain ⟨reading, read, wide, here, kind, shown⟩ := accounts.reading_of_lexemeAt rfl found
      have handed := (accounts.wide reading.located wide).2 (List.mem_map_of_mem read)
      exact ⟨reading.token, reading.span, mem_lex.2 ⟨handed, shown⟩, wide, here,
        (Token.mem_recorded _).2 kind⟩
    · rintro ⟨token, span, member, wide, rfl, recorded⟩
      obtain ⟨category, text, -, -, found⟩ := recovered token span member wide recorded
      rw [found]
      rfl
  · intro token span member wide unrecorded valid inLine
    rw [Token.mem_recorded, Option.isSome_iff_ne_none, not_not] at unrecorded
    obtain ⟨handed, -⟩ := mem_lex.1 member
    obtain ⟨reading, -, same, text, copies⟩ := accounts.copies handed wide inLine
    cases same
    exact ⟨text, copies.slice, copies.spelled unrecorded valid⟩

end Offside
