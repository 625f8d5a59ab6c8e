import Offside.Proofs.Layout.LineStarts
import Offside.Proofs.Lexical.Spellings
import Offside.Proofs.Lexical.Tiling

/-!
Where tokens and reports come from. A token of some width was read from the text where it stands, and
whatever is reported was found when a token was read. No two tokens of some width start at one place,
so what was found there is found in one reading.
-/

namespace Offside

set_option autoImplicit false

open Offside.Lexical

namespace Language

/-- What is read at the start of a text that starts with no trivia. The flag says that a proper
identifier ends there. -/
def scan : Language → Bool → List Char → Scan
  | .python, _, text =>
    if leads (· == '#') text then Python.Lexer.commentScan text else Python.scan text
  | .haskell, afterProper, text => Haskell.scan afterProper text

/-- What is read of a text, token by token. Layout may hand out further tokens in between. -/
def readings : Language → FileId → List Char → List Lexed
  | .python, file, source => (Python.reader.stream file source).items
  | .haskell, file, source => Haskell.sourceReadings file source

end Language

/-- A token as it arises from a text: read at the place of a cursor, or made from the end of a line,
from the margin or from the end of the text. -/
inductive Lexical.Lexed.Arises (language : Language) (file : FileId) (source : List Char) :
    Lexed → Prop
  | scanned {cursor : Cursor} (stands : cursor.Stands source) (afterProper : Bool)
      (text : List Char) :
      Arises language file source ((language.scan afterProper cursor.ahead).lexed file cursor text)
  | newline {cursor : Cursor} {rest : List Char} (stands : cursor.Stands source)
      (feed : cursor.ahead = '\n' :: rest) :
      Arises language file source (.silent .newline
        ⟨file, cursor.position, ⟨cursor.position.line, cursor.position.column + 1⟩⟩)
  | margin {token : Token} (place : Position)
      (made : token = .indent ∨ token = .dedent ∨ token = .endOfInput) :
      Arises language file source (.silent token (.point place file))
  | misaligned (place : Position) :
      Arises language file source
        { token := .dedent
          span := .point place file
          reports := [⟨.inconsistentIndentation, .point place file⟩] }

def Token.IsWord (token : Token) : Prop :=
  (Lexeme.Category.ofToken? token).isSome = true ∧ token ≠ .comment

/-- A token was scanned ahead of a cursor, and what is left of the text is what stands behind it. -/
structure Language.Passes (language : Language) (file : FileId) (source : List Char)
    (found : Token × Span) (cursor : Cursor) (afterProper : Bool) (rest : List Char) : Prop where
  stands : cursor.Stands source
  token : found.1 = (language.scan afterProper cursor.ahead).token
  span : found.2 = spanAhead file cursor (language.scan afterProper cursor.ahead).width
  rest : rest = cursor.ahead.drop ((language.scan afterProper cursor.ahead).width +
    (language.scan afterProper cursor.ahead).absorbed)

theorem Token.not_isWord {token : Token}
    (unrecorded : Lexeme.Category.ofToken? token = none ∨ token = .comment) : ¬token.IsWord := by
  intro word
  rcases unrecorded with none | comment
  · have recorded := word.1
    rw [none] at recorded
    cases recorded
  · exact word.2 comment

namespace Python.Lexer

variable {source : List Char} {lexer : Lexer} {cursor : Cursor} {file : FileId}

def Delivers (file : FileId) (source : List Char) (move : Move Lexer) : Prop :=
  ∀ item ∈ move.item, item.Arises .python file source ∧
    (item.token.IsWord → ∃ cursor,
      Language.python.Passes file source item.located cursor false move.state.cursor.ahead)

theorem delivers_pass (after : Lexer) : Delivers file source (.pass after) := nofun

theorem delivers_emit {item : Lexed} (after : Lexer) (arises : item.Arises .python file source)
    (unrecorded : Lexeme.Category.ofToken? item.token = none ∨ item.token = .comment) :
    Delivers file source (.emit item after) := by
  intro other member
  cases member
  exact ⟨arises, fun word => absurd word (Token.not_isWord unrecorded)⟩

theorem commentItem_arises (stands : cursor.Stands source)
    (comment : cursor.startsWith '#' = true) :
    (commentItem file cursor).Arises .python file source := by
  have led : leads (· == '#') cursor.ahead = true := by
    rw [Cursor.startsWith, beq_iff_eq] at comment
    simp [leads, comment]
  have scanned : Language.python.scan false cursor.ahead = commentScan cursor.ahead := if_pos led
  have arises := @Lexed.Arises.scanned .python file source cursor stands false
    (cursor.ahead.take (commentScan cursor.ahead).width)
  rw [scanned] at arises
  exact arises

theorem moveAtLineStart_delivers (stands : lexer.cursor.Stands source) :
    Delivers file source (lexer.moveAtLineStart file) := by
  have skipped := stands.skipWhile Cursor.isIndentation
  simp only [moveAtLineStart]
  generalize lexer.cursor.skipWhile Cursor.isIndentation = cursor at skipped ⊢
  split
  · exact delivers_pass _
  · split
    · exact delivers_pass _
    · split
      · exact delivers_emit _ (commentItem_arises skipped ‹_›) (.inr rfl)
      · split
        · exact delivers_pass _
        · exact delivers_emit _ (.margin _ (.inl rfl)) (.inl rfl)
        · exact delivers_emit _ (.margin _ (.inr (.inl rfl))) (.inl rfl)
        · exact delivers_emit _ (.misaligned _) (.inl rfl)

theorem moveAtEnd_delivers : Delivers file source (lexer.moveAtEnd file) := by
  unfold moveAtEnd
  split
  · exact delivers_emit _ (.margin _ (.inr (.inr rfl))) (.inl rfl)
  · exact delivers_emit _ (.margin _ (.inr (.inl rfl))) (.inl rfl)

theorem moveAtLineFeed_delivers {rest : List Char} (stands : lexer.cursor.Stands source)
    (feed : lexer.cursor.ahead = '\n' :: rest) :
    Delivers file source (lexer.moveAtLineFeed file) := by
  simp only [moveAtLineFeed]
  split
  · exact delivers_pass _
  · split
    · exact delivers_emit _ (.newline stands feed) (.inl rfl)
    · exact delivers_pass _

theorem moveAtToken_delivers (stands : lexer.cursor.Stands source)
    (noComment : lexer.cursor.startsWith '#' = false) :
    Delivers file source (lexer.moveAtToken file) := by
  have led : ¬leads (· == '#') lexer.cursor.ahead = true := by
    simpa [leads, Cursor.startsWith, Option.any_eq_true] using noComment
  have scanned : Language.python.scan false lexer.cursor.ahead = scan lexer.cursor.ahead :=
    if_neg led
  intro item member
  cases member
  rw [← scanned]
  refine ⟨.scanned stands false _, fun _ => ⟨lexer.cursor, stands, rfl, rfl, ?_⟩⟩
  rw [scanned]
  exact Cursor.ahead_skip _ _

theorem moveInLine_delivers (stands : lexer.cursor.Stands source) :
    Delivers file source (lexer.moveInLine file) := by
  have skipped := stands.skipWhile isBlankInLine
  simp only [moveInLine]
  generalize lexer.cursor.skipWhile isBlankInLine = cursor at skipped ⊢
  split
  · exact moveAtEnd_delivers
  · split
    · exact delivers_emit _ (commentItem_arises skipped ‹_›) (.inr rfl)
    · rename_i noComment
      split
      · rename_i lineFeed
        obtain ⟨rest, feed⟩ : ∃ rest, cursor.ahead = '\n' :: rest := by
          simpa [Cursor.startsWith, List.head?_eq_some_iff] using lineFeed
        exact @moveAtLineFeed_delivers source { lexer with cursor } file rest skipped feed
      · split
        · exact delivers_pass _
        · exact @moveAtToken_delivers source { lexer with cursor } file skipped
            (by simpa using noComment)

theorem move_delivers (stands : lexer.cursor.Stands source) :
    Delivers file source (lexer.move file) := by
  unfold move
  split
  · exact delivers_emit _ (.margin _ (.inr (.inl rfl))) (.inl rfl)
  · split
    · exact moveAtLineStart_delivers stands
    · exact moveInLine_delivers stands

end Python.Lexer

theorem Python.readings_arise (file : FileId) (source : List Char) :
    ∀ reading ∈ Language.python.readings file source, reading.Arises .python file source := by
  have step : ∀ lexer : Lexer, lexer.cursor.Stands source →
      (∀ item ∈ (reader.move file lexer).item, item.Arises .python file source) ∧
        (reader.move file lexer).state.cursor.Stands source :=
    fun lexer stands => ⟨fun item member => (Lexer.move_delivers stands item member).1,
      (Lexer.move_recounts stands file).stands⟩
  exact Reader.mem_items step _ (Cursor.stands_ofText source)

namespace Haskell

theorem Lexer.readings_arise {source : List Char} (file : FileId) {lexer : Lexer}
    (stands : lexer.cursor.Stands source) :
    ∀ reading ∈ lexer.readings file, reading.Arises .haskell file source := by
  have own : ∀ {lexer : Lexer}, lexer.cursor.Stands source →
      (lexer.nextItem file).Arises .haskell file source :=
    fun stands => .scanned (stands.skipWhile Text.isBlank) _ _
  fun_induction Lexer.readings file lexer with
  | case1 lexer ended =>
    intro reading member
    rw [List.mem_singleton.1 member]
    exact own stands
  | case2 lexer inner shorter induction =>
    have later : ∀ reading ∈ lexer.pastNext.readings file,
        reading.Arises .haskell file source := by
      apply induction
      rw [cursor_pastNext]
      exact (stands.skipWhile _).skip _
    exact List.forall_mem_cons.2 ⟨own stands, later⟩

/-- Tokens of kinds that layout never adds are handed out as they are read. -/
theorem Layout.spread_filter {kinds : Token → Bool}
    (read : ∀ token, isAdded token = true → kinds token = false) (layout : Layout)
    (tokens : List Written) :
    (layout.spread tokens).filter (fun found => kinds found.1) =
      (tokens.map Written.located).filter fun found => kinds found.1 := by
  induction tokens generalizing layout with
  | nil => rfl
  | cons written later induction =>
    by_cases comment : written.token = .comment
    · rw [spread_of_comment comment, List.map_cons, List.filter_cons, List.filter_cons, induction]
      rfl
    · have added : ((layout.step written).1.map (·, written.span.atStart)).filter
          (fun found => kinds found.1) = [] := by
        apply List.filter_eq_nil_iff.2
        intro found member
        obtain ⟨token, among, rfl⟩ := List.mem_map.1 member
        simp [read token (step_added written layout token among)]
      rw [spread_of_written comment, List.filter_append, added, List.nil_append, List.map_cons,
        List.filter_cons, List.filter_cons, induction]
      rfl

end Haskell

namespace Language

variable {language : Language} {file : FileId} {source : List Char} {reading other : Lexed}

theorem readings_arise (language : Language) (file : FileId) (source : List Char) :
    ∀ reading ∈ language.readings file source, reading.Arises language file source := by
  cases language with
  | python => exact Python.readings_arise file source
  | haskell => exact Haskell.Lexer.readings_arise file (Cursor.stands_ofText source)

/-- What is handed out of a text reports what its readings report. -/
theorem stream_reports (language : Language) (file : FileId) (source : List Char) :
    reportsOf ((TokenSource.ofText language source).stream file).items =
      reportsOf (language.readings file source) := by
  cases language with
  | python => rfl
  | haskell => exact Haskell.stream_reports file source

theorem reports_lex (language : Language) (source : List Char) {context : Context}
    (fresh : context.diagnostics = #[]) :
    (context.lex language source).2.diagnostics.toList =
      reportsOf (language.readings context.file source) := by
  rw [← language.stream_reports]
  simp [Context.lex, Context.diagnostics_absorbAll, fresh]

theorem stream_accounts (language : Language) (file : FileId) (source : List Char) :
    Accounts language source ((TokenSource.ofText language source).stream file).items
      (language.readings file source) := by
  cases language with
  | python => exact Python.stream_accounts file source
  | haskell => exact Haskell.stream_accounts file source

/-- Of the kinds that layout never adds, the tokens handed out are those that are read, in their
order. -/
theorem stream_filter (language : Language) (file : FileId) (source : List Char)
    {kinds : Token → Bool} (read : ∀ token, Haskell.Layout.isAdded token = true → kinds token = false) :
    (((TokenSource.ofText language source).stream file).items.map Lexed.located).filter
        (fun found => kinds found.1) =
      ((language.readings file source).map Lexed.located).filter fun found => kinds found.1 := by
  cases language with
  | python => rfl
  | haskell =>
    have handed := Haskell.stream_located file source
    have read := Haskell.Layout.spread_filter read {} (Haskell.scannedTokens file source)
    rw [← handed] at read
    exact read.trans (by rw [readings, Haskell.sourceReadings, Haskell.Lexer.located_readings]; rfl)

theorem readings_ordered (language : Language) (file : FileId) (source : List Char) :
    (language.readings file source).Pairwise fun earlier later =>
      earlier.span.stop ≤ later.span.start := by
  cases language with
  | python => exact List.pairwise_map.1 (Python.stream_tiles file source).ordered
  | haskell =>
    have apart := Haskell.Lexer.scanned_apart file (Haskell.Lexer.start source)
    have located := Haskell.Lexer.located_readings file (Haskell.Lexer.start source)
    have ordered : (((Haskell.Lexer.start source).scanned file).map
        Haskell.Written.located).Pairwise fun earlier later => earlier.2.stop ≤ later.2.start :=
      List.pairwise_map.2 (apart.imp fun both => both.2)
    rw [← located] at ordered
    exact List.pairwise_map.1 ordered

end Language

theorem Lexical.Lexed.Arises.forward {language : Language} {file : FileId} {source : List Char}
    {item : Lexed} (arises : item.Arises language file source) :
    item.span.start ≤ item.span.stop := by
  cases arises with
  | scanned stands afterProper text => exact Cursor.position_le_skip _ _
  | newline stands feed => exact .inr ⟨rfl, Nat.le_succ _⟩
  | margin place made => exact Position.le_refl _
  | misaligned place => exact Position.le_refl _

namespace Language

variable {language : Language} {file : FileId} {source : List Char} {reading other : Lexed}

/-- Readings of some width are told apart by where they start. -/
theorem reading_unique (read : reading ∈ language.readings file source)
    (otherRead : other ∈ language.readings file source) (wide : reading.span.isPoint = false)
    (otherWide : other.span.isPoint = false) (same : reading.span.start = other.span.start) :
    reading = other := by
  have symmetric : Std.Symm fun first second : Lexed =>
      first.span.stop ≤ second.span.start ∨ second.span.stop ≤ first.span.start :=
    ⟨fun _ _ either => either.symm⟩
  have apart : (language.readings file source).Pairwise fun first second =>
      first.span.stop ≤ second.span.start ∨ second.span.stop ≤ first.span.start :=
    (readings_ordered language file source).imp fun before => .inl before
  apply Classical.byContradiction
  intro differs
  rcases apart.forall read otherRead differs with before | before
  · have back := (readings_arise language file source reading read).forward
    rw [← same] at before
    exact of_decide_eq_false wide (Position.le_antisymm back before)
  · have back := (readings_arise language file source other otherRead).forward
    rw [same] at before
    exact of_decide_eq_false otherWide (Position.le_antisymm back before)

/-- A token of some width that is handed out of a text was scanned there, or it ends a line. -/
theorem scanned_of_wide {context : Context} {token : Token} {span : Span}
    (lexed : (token, span) ∈ (context.lex language source).1) (wide : span.isPoint = false) :
    ∃ cursor : Cursor, cursor.Stands source ∧ span.start = cursor.position ∧
      ((∃ rest, cursor.ahead = '\n' :: rest ∧ token = .newline) ∨
        ∃ afterProper text,
          (language.scan afterProper cursor.ahead).lexed context.file cursor text ∈
              language.readings context.file source ∧
            token = (language.scan afterProper cursor.ahead).token ∧
            span = spanAhead context.file cursor (language.scan afterProper cursor.ahead).width) := by
  have accounts := stream_accounts language context.file source
  have read := (accounts.wide (token, span) wide).1 (mem_lex.1 lexed).1
  obtain ⟨reading, member, located⟩ := List.mem_map.1 read
  cases located
  cases readings_arise language context.file source reading member with
  | scanned stands afterProper text =>
    exact ⟨_, stands, rfl, .inr ⟨afterProper, text, member, rfl, rfl⟩⟩
  | newline stands feed => exact ⟨_, stands, rfl, .inl ⟨_, feed, rfl⟩⟩
  | margin place made => exact absurd (Span.isPoint_point place _) (Bool.eq_false_iff.1 wide)
  | misaligned place => exact absurd (Span.isPoint_point place _) (Bool.eq_false_iff.1 wide)

theorem wide_of_reading (read : reading ∈ language.readings file source)
    (recorded : (Lexeme.Category.ofToken? reading.token).isSome = true) :
    reading.span.isPoint = false := by
  rcases (stream_accounts language file source).readings reading read with ⟨text, copies⟩ | plain
  · exact copies.wide
  · rw [plain.token] at recorded
    cases recorded

theorem wide_of_lexed {context : Context} {token : Token} {span : Span}
    (lexed : (token, span) ∈ (context.lex language source).1)
    (recorded : (Lexeme.Category.ofToken? token).isSome = true) : span.isPoint = false := by
  have written : ∀ other, Haskell.Layout.isAdded other = true → decide (other = token) = false := by
    intro other added
    apply decide_eq_false
    rintro rfl
    simp only [Haskell.Layout.isAdded, Bool.or_eq_true, decide_eq_true_eq] at added
    rcases added with (rfl | rfl) | rfl <;> cases recorded
  have handed : (token, span) ∈ (((TokenSource.ofText language source).stream
      context.file).items.map Lexed.located).filter fun found => found.1 = token :=
    List.mem_filter.2 ⟨(mem_lex.1 lexed).1, decide_eq_true rfl⟩
  rw [@stream_filter language context.file source (fun kind => kind = token) written] at handed
  obtain ⟨reading, read, located⟩ := List.mem_map.1 (List.mem_filter.1 handed).1
  cases located
  exact wide_of_reading read recorded

end Language

/-- Every token is handed out by a move, and the moves from there hand out what follows it. -/
theorem Lexical.Reader.exists_move {State : Type} {reader : Reader State} {file : FileId}
    {keeps : State → Prop} (step : ∀ state, keeps state → keeps (reader.move file state).state)
    {item : Lexed} (inner : item.isFinal = false) {later : List Lexed} (state : State)
    (kept : keeps state) {earlier : List Lexed}
    (split : reader.items file state = earlier ++ item :: later) :
    ∃ before after, keeps before ∧ reader.move file before = .emit item after ∧
      later = reader.items file after := by
  fun_induction Reader.items reader file state generalizing earlier with
  | case1 state found lower induction => exact induction (step state kept) split
  | case2 state other found final =>
    cases earlier with
    | nil =>
      cases split
      rw [inner] at final
      cases final
    | cons first front => simp at split
  | case3 state other found goesOn lower induction =>
    cases earlier with
    | nil =>
      obtain ⟨rfl, rfl⟩ := List.cons.inj split
      exact ⟨state, _, kept, by rw [Move.emit, ← found], rfl⟩
    | cons first front => exact induction (step state kept) (List.cons.inj split).2

/-- The place in its text from which a source reads on, with no token waiting. -/
def TokenSource.ReadsOn : TokenSource → List Char → Prop
  | .python lexer, text => lexer.cursor.ahead = text
  | .haskell lexer, text => lexer.cursor.ahead = text ∧ lexer.pending = []
  | .script _, _ => False

namespace Haskell

/-- A line break is a blank, so none is read with a token. -/
theorem scan_absorbed (afterProper : Bool) (text : List Char) :
    (scan afterProper text).absorbed = 0 := by
  have scanned := scan_scanned afterProper text
  generalize scan afterProper text = found at scanned ⊢
  cases scanned with
  | number =>
    unfold scanNumber
    split <;> rfl
  | _ => rfl

end Haskell

namespace Haskell.Lexer

variable {source : List Char} {lexer after : Lexer} {file : FileId} {item : Lexed}

/-- Of the tokens that wait only the last is a word. It was read right in front of the cursor. -/
structure IsFollowed (file : FileId) (source : List Char) (lexer : Lexer) : Prop where
  stands : lexer.cursor.Stands source
  waiting : ∀ earlier item later, lexer.pending = earlier ++ item :: later → item.token.IsWord →
    later = [] ∧ ∃ cursor afterProper,
      Language.haskell.Passes file source item.located cursor afterProper lexer.cursor.ahead

theorem isFollowed_start (file : FileId) (source : List Char) :
    (start source).IsFollowed file source where
  stands := Cursor.stands_ofText source
  waiting := by
    intro earlier item later split
    exact absurd split (by simp [start])

theorem not_isWord_of_added {token : Token} (added : Layout.isAdded token = true) :
    ¬token.IsWord := by
  simp only [Layout.isAdded, Bool.or_eq_true, decide_eq_true_eq] at added
  rcases added with (rfl | rfl) | rfl <;> exact Token.not_isWord (.inl rfl)

structure Delivers (file : FileId) (source : List Char) (move : Move Lexer) : Prop where
  state : move.state.IsFollowed file source
  word : ∀ item ∈ move.item, item.token.IsWord → move.state.pending = [] ∧
    ∃ cursor afterProper,
      Language.haskell.Passes file source item.located cursor afterProper move.state.cursor.ahead

theorem release_delivers {added : List Token} {cursor : Cursor} {afterProper : Bool}
    (stands : lexer.cursor.Stands source) (idle : lexer.pending = [])
    (layout : ∀ token ∈ added, Layout.isAdded token = true)
    (passes : Language.haskell.Passes file source item.located cursor afterProper lexer.cursor.ahead) :
    Delivers file source (lexer.release added item) := by
  cases added with
  | nil =>
    constructor
    · exact ⟨stands, fun earlier other later split => by simp [release, Move.emit, idle] at split⟩
    · intro other member word
      cases member
      exact ⟨idle, cursor, afterProper, passes⟩
  | cons first others =>
    have layoutOthers : ∀ waiting ∈ others.map fun token => Lexed.silent token item.span.atStart,
        ¬waiting.token.IsWord := by
      intro waiting member
      obtain ⟨token, among, rfl⟩ := List.mem_map.1 member
      exact not_isWord_of_added (layout token (List.mem_cons_of_mem _ among))
    constructor
    · refine ⟨stands, fun earlier other later split word => ?_⟩
      change (others.map fun token => Lexed.silent token item.span.atStart) ++
        [.silent item.token item.span] = earlier ++ other :: later at split
      rcases List.eq_nil_or_concat later with rfl | ⟨front, last, rfl⟩
      · obtain ⟨-, same⟩ := List.append_inj' split rfl
        cases same
        exact ⟨rfl, cursor, afterProper, passes⟩
      · rw [List.concat_eq_append, ← List.cons_append, ← List.append_assoc] at split
        obtain ⟨same, -⟩ := List.append_inj' split rfl
        have among : other ∈ others.map fun token => Lexed.silent token item.span.atStart := by
          rw [same]
          exact List.mem_append_right _ List.mem_cons_self
        exact absurd word (layoutOthers other among)
    · intro other member word
      cases member
      exact absurd word (not_isWord_of_added (layout first List.mem_cons_self))

theorem read_delivers (stands : lexer.cursor.Stands source) (idle : lexer.pending = []) :
    Delivers file source (lexer.read file) := by
  have placed := stands.skipWhile Text.isBlank
  unfold read
  simp only
  generalize lexer.cursor.skipWhile Text.isBlank = cursor at placed ⊢
  split
  · rename_i comment
    constructor
    · exact ⟨placed.skip _, fun earlier item later split => by
        simp [Move.emit, idle] at split⟩
    · intro item member word
      cases member
      exact absurd word (Token.not_isWord (.inr comment))
  · apply release_delivers (by exact placed.skip _) (by exact idle)
    · intro token among
      exact Layout.step_added _ _ token among
    · refine ⟨placed, rfl, rfl, ?_⟩
      rw [Cursor.ahead_skip, Language.scan, scan_absorbed, Nat.add_zero]

theorem move_delivers (followed : lexer.IsFollowed file source) :
    Delivers file source (lexer.move file) := by
  unfold move
  split
  · rename_i item later found
    constructor
    · refine ⟨followed.stands, fun earlier other last split word => ?_⟩
      have waiting : later = earlier ++ other :: last := split
      exact followed.waiting (item :: earlier) other last (by rw [found, waiting]; rfl) word
    · intro other member word
      cases member
      obtain ⟨last, passes⟩ := followed.waiting [] item later found word
      exact ⟨last, passes⟩
  · exact read_delivers followed.stands ‹_›

end Haskell.Lexer

namespace Language

variable {language : Language} {file : FileId} {source : List Char}

/-- What is handed out behind a word is what is handed out of the text behind it. -/
theorem exists_passes {item : Lexed} (word : item.token.IsWord) {earlier later : List Lexed}
    (split : ((TokenSource.ofText language source).stream file).items = earlier ++ item :: later) :
    ∃ cursor afterProper rest, language.Passes file source item.located cursor afterProper rest ∧
      ∃ left : TokenSource, left.ReadsOn rest ∧ later = (left.stream file).items := by
  have inner : item.isFinal = false := by
    apply decide_eq_false
    intro final
    have recorded := word.1
    rw [final] at recorded
    cases recorded
  cases language with
  | python =>
    have step : ∀ lexer : Python.Lexer, lexer.cursor.Stands source →
        (Python.reader.move file lexer).state.cursor.Stands source :=
      fun lexer stands => (Python.Lexer.move_recounts stands file).stands
    obtain ⟨before, after, stands, moved, rfl⟩ :=
      Reader.exists_move step inner _ (Cursor.stands_ofText source) split
    have delivers : Python.Lexer.Delivers file source (Python.reader.move file before) :=
      Python.Lexer.move_delivers stands
    rw [moved] at delivers
    obtain ⟨cursor, passes⟩ := (delivers item rfl).2 word
    exact ⟨cursor, false, _, passes, .python after, rfl, rfl⟩
  | haskell =>
    have step : ∀ lexer : Haskell.Lexer, lexer.IsFollowed file source →
        (Haskell.reader.move file lexer).state.IsFollowed file source :=
      fun lexer followed => (Haskell.Lexer.move_delivers followed).state
    obtain ⟨before, after, followed, moved, rfl⟩ :=
      Reader.exists_move step inner _ (Haskell.Lexer.isFollowed_start file source) split
    have delivers : Haskell.Lexer.Delivers file source (Haskell.reader.move file before) :=
      Haskell.Lexer.move_delivers followed
    rw [moved] at delivers
    obtain ⟨idle, cursor, afterProper, passes⟩ := delivers.word item rfl word
    exact ⟨cursor, afterProper, _, passes, .haskell after, ⟨rfl, idle⟩, rfl⟩

end Language

end Offside
