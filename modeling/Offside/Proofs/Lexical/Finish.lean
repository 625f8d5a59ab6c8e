import Offside.Proofs.Layout.Braces
import Offside.Proofs.Lexical.Spans
import Offside.Proofs.Python.Indentation
import Offside.Proofs.Source.Columns

/-!
Reading a text to its end and beyond. The weight of a reader bounds the calls until the first end of
input. The state that hands it out is at rest: it hands out the same end of input for ever and has
nothing more to report or to record.
-/

namespace Offside

set_option autoImplicit false

open Offside.Lexical

/-- A token that leaves no trace in a context. -/
structure Lexical.Lexed.IsMute (item : Lexed) : Prop where
  reports : item.reports = []
  entries : ∀ entry ∈ item.entries, Lexeme.Category.ofToken? entry.token = none

def Lexical.Lexed.RecordsOnlyComments (item : Lexed) : Prop :=
  item.token = .comment → ∀ entry ∈ item.entries, entry.token = .comment

namespace Context

theorem recordEntry_of_fixed {entry : Entry}
    (fixed : Lexeme.Category.ofToken? entry.token = none) (context : Context) :
    context.recordEntry entry = context := by
  unfold recordEntry
  split
  · rw [LexemeTable.record_of_fixed _ _ _ _ fixed]
  · rfl

theorem recordEntry_of_comment {entry : Entry} (comment : entry.token = .comment)
    {context : Context} (dropped : context.keepComments = false) :
    context.recordEntry entry = context := by
  simp [recordEntry, records, dropped, comment]

theorem foldl_recordEntry_same {entries : List Entry} {context : Context}
    (same : ∀ entry ∈ entries, context.recordEntry entry = context) :
    entries.foldl recordEntry context = context := by
  induction entries with
  | nil => rfl
  | cons entry later induction =>
    rw [List.forall_mem_cons] at same
    rw [List.foldl_cons, same.1]
    exact induction same.2

theorem absorb_mute {item : Lexed} (mute : item.IsMute) (context : Context) :
    context.absorb item = context := by
  have none : context.diagnostics ++ ([] : List Diagnostic) = context.diagnostics := by
    rw [← Array.toList_inj]
    simp
  unfold absorb
  rw [mute.reports, none]
  exact foldl_recordEntry_same fun entry member =>
    recordEntry_of_fixed (mute.entries entry member) context

/-- A comment that is dropped leaves its reports with the next token. -/
theorem absorb_of_dropped {comment later : Lexed} {context : Context}
    (isComment : comment.token = .comment) (own : comment.RecordsOnlyComments)
    (dropped : context.keepComments = false) :
    context.absorb { later with reports := comment.reports ++ later.reports } =
      (context.absorb comment).absorb later := by
  have unrecorded : context.absorb comment =
      { context with diagnostics := context.diagnostics ++ comment.reports } :=
    foldl_recordEntry_same fun entry member =>
      recordEntry_of_comment (own isComment entry member) dropped
  have joined : context.diagnostics ++ (comment.reports ++ later.reports) =
      context.diagnostics ++ comment.reports ++ later.reports := by
    rw [← Array.toList_inj]
    simp
  rw [unrecorded, absorb, joined]
  rfl

theorem recordEntry_settings (context : Context) (entry : Entry) :
    (context.recordEntry entry).file = context.file ∧
      (context.recordEntry entry).keepComments = context.keepComments := by
  unfold recordEntry
  split
  · exact ⟨rfl, rfl⟩
  · exact ⟨rfl, rfl⟩

theorem absorb_settings (context : Context) (item : Lexed) :
    (context.absorb item).file = context.file ∧
      (context.absorb item).keepComments = context.keepComments := by
  have folded : ∀ (entries : List Entry) (context : Context),
      (entries.foldl recordEntry context).file = context.file ∧
        (entries.foldl recordEntry context).keepComments = context.keepComments := by
    intro entries
    induction entries with
    | nil => exact fun context => ⟨rfl, rfl⟩
    | cons entry later induction =>
      intro context
      have first := recordEntry_settings context entry
      have others := induction (context.recordEntry entry)
      exact ⟨others.1.trans first.1, others.2.trans first.2⟩
  exact folded item.entries { context with diagnostics := context.diagnostics ++ item.reports }

end Context

namespace Lexical.Reader

variable {State : Type} {reader : Reader State} {file : FileId} {state : State}

def RestsAt (reader : Reader State) (file : FileId) (place : Span) (state : State) : Prop :=
  ∃ item, reader.move file state = .emit item state ∧ item.located = (.endOfInput, place) ∧
    item.IsMute

theorem RestsAt.calls {place : Span} (rests : reader.RestsAt file place state)
    (keepComments : Bool) (count : Nat) :
    ∃ items, reader.calls file (List.replicate count keepComments) state = (items, state) ∧
      items.map Lexed.located = List.replicate count (.endOfInput, place) ∧
        ∀ item ∈ items, item.IsMute := by
  obtain ⟨item, moved, located, mute⟩ := rests
  have inner : ¬(item.token = .comment ∧ keepComments = false) := by
    have token : item.token = .endOfInput := congrArg Prod.fst located
    simp [token]
  have called : reader.next keepComments file state = (item, state) := by
    rw [next]
    split
    · rename_i found
      rw [moved] at found
      cases found
    · rename_i other found
      rw [moved] at found
      cases found
      rw [dif_neg inner, moved]
      rfl
  induction count with
  | zero => exact ⟨[], rfl, rfl, by simp⟩
  | succ count induction =>
    obtain ⟨items, calls, same, mutes⟩ := induction
    refine ⟨item :: items, ?_, ?_, List.forall_mem_cons.2 ⟨mute, mutes⟩⟩
    · rw [List.replicate_succ, calls_cons, called]
      simp only [calls]
    · rw [List.map_cons, located, same, List.replicate_succ]

/-- What the moves of a reader have to keep for it to come to rest at the end of input. -/
structure Finishes (reader : Reader State) (file : FileId) (keeps : State → Prop) : Prop where
  move : ∀ state, keeps state → keeps (reader.move file state).state
  comments : ∀ state, keeps state →
    ∀ item ∈ (reader.move file state).item, item.RecordsOnlyComments
  rests : ∀ state, keeps state → ∀ item ∈ (reader.move file state).item, item.isFinal = true →
    reader.RestsAt file item.span (reader.move file state).state

def shown (keepComments : Bool) (items : List Lexed) : List (Token × Span) :=
  (items.filter fun item => keepComments || item.token != .comment).map Lexed.located

/-- What one call does: it hands out the first token that is shown, takes in all up to it, and comes
to rest or gets on. -/
structure Advances (reader : Reader State) (file : FileId) (keepComments : Bool) (state : State)
    (keeps : State → Prop) (called : Lexed × State) : Prop where
  keeps : keeps called.2
  shown : shown keepComments (reader.items file state) = called.1.located ::
    if called.1.isFinal then [] else shown keepComments (reader.items file called.2)
  absorbed : ∀ context : Context, context.keepComments = keepComments →
    context.absorbAll (reader.items file state) =
      if called.1.isFinal then context.absorb called.1
      else (context.absorb called.1).absorbAll (reader.items file called.2)
  rests : called.1.isFinal = true → reader.RestsAt file called.1.span called.2
  lower : called.1.isFinal = false → reader.weight called.2 < reader.weight state

section Advances

variable {keeps : State → Prop} {keepComments : Bool} {after : State} {called : Lexed × State}

theorem Advances.of_pass (pass : reader.move file state = .pass after)
    (lower : reader.weight after < reader.weight state)
    (advances : Advances reader file keepComments after keeps called) :
    Advances reader file keepComments state keeps called where
  keeps := advances.keeps
  shown := by
    rw [items_of_pass pass]
    exact advances.shown
  absorbed := by
    rw [items_of_pass pass]
    exact advances.absorbed
  rests := advances.rests
  lower := fun goesOn => Nat.lt_trans (advances.lower goesOn) lower

theorem Advances.of_dropped {comment : Lexed} (emits : reader.move file state = .emit comment after)
    (dropped : comment.token = .comment ∧ keepComments = false)
    (own : comment.RecordsOnlyComments) (lower : reader.weight after < reader.weight state)
    (advances : Advances reader file keepComments after keeps called) :
    Advances reader file keepComments state keeps
      ({ called.1 with reports := comment.reports ++ called.1.reports }, called.2) := by
  have same := items_of_emit emits (by simp [Lexed.isFinal, dropped.1])
  exact
    { keeps := advances.keeps
      shown := by
        rw [same, Reader.shown, List.filter_cons_of_neg (by simp [dropped])]
        exact advances.shown
      absorbed := by
        intro context setting
        have settings := context.absorb_settings comment
        rw [same, Context.absorb_of_dropped dropped.1 own (setting.trans dropped.2)]
        exact advances.absorbed (context.absorb comment) (settings.2.trans setting)
      rests := advances.rests
      lower := fun goesOn => Nat.lt_trans (advances.lower goesOn) lower }

theorem Advances.of_shown {item : Lexed} (emits : reader.move file state = .emit item after)
    (visible : (keepComments || item.token != .comment) = true) (kept : keeps after)
    (rests : item.isFinal = true → reader.RestsAt file item.span after) :
    Advances reader file keepComments state keeps (item, after) := by
  have items : reader.items file state =
      item :: if item.isFinal then [] else reader.items file after := by
    by_cases final : item.isFinal = true
    · rw [items_of_final emits final, if_pos final]
    · rw [items_of_emit emits (by simpa using final), if_neg final]
  refine ⟨kept, ?_, ?_, rests, ?_⟩
  · rw [items, Reader.shown, List.filter_cons_of_pos (by exact visible)]
    split
    · rfl
    · rfl
  · intro context _
    rw [items]
    split
    · rfl
    · rfl
  · intro goesOn
    have lower := reader.descends file state (by simpa [emits, Move.isFinal, Move.emit] using goesOn)
    rw [emits] at lower
    exact lower

end Advances

theorem Finishes.next {keeps : State → Prop} (finishes : Finishes reader file keeps)
    (keepComments : Bool) (state : State) (kept : keeps state) :
    Advances reader file keepComments state keeps (reader.next keepComments file state) := by
  have moved := finishes.move state kept
  fun_induction Reader.next reader keepComments file state with
  | case1 state found lower induction =>
    have pass : reader.move file state = .pass (reader.move file state).state := by
      rw [Move.pass, ← found]
    exact (induction moved (finishes.move _ moved)).of_pass pass lower
  | case2 state item found comment lower later final called induction =>
    have emits : reader.move file state = .emit item (reader.move file state).state := by
      rw [Move.emit, ← found]
    have advances := induction moved (finishes.move _ moved)
    rw [called] at advances
    exact advances.of_dropped emits comment (finishes.comments state kept item found) lower
  | case3 state item found shows =>
    have emits : reader.move file state = .emit item (reader.move file state).state := by
      rw [Move.emit, ← found]
    have visible : (keepComments || item.token != .comment) = true := by
      cases keepComments with
      | true => rfl
      | false => simpa using shows
    exact .of_shown emits visible moved (finishes.rests state kept item found)

structure Reaches (reader : Reader State) (file : FileId) (keepComments : Bool) (state : State)
    (inner : List Lexed) (final : Lexed) (left : State) : Prop where
  calls : reader.calls file (List.replicate (inner.length + 1) keepComments) state =
    (inner ++ [final], left)
  ends : final.token = .endOfInput
  others : ∀ item ∈ inner, item.token ≠ .endOfInput
  bound : inner.length ≤ reader.weight state
  shown : (inner ++ [final]).map Lexed.located = shown keepComments (reader.items file state)
  absorbed : ∀ context : Context, context.keepComments = keepComments →
    context.absorbAll (inner ++ [final]) = context.absorbAll (reader.items file state)
  rests : reader.RestsAt file final.span left

section Reaches

variable {keeps : State → Prop} {keepComments : Bool} {item : Lexed} {after : State}

theorem Advances.reaches_end
    (advances : Advances reader file keepComments state keeps (item, after))
    (called : reader.next keepComments file state = (item, after)) (final : item.isFinal = true) :
    Reaches reader file keepComments state [] item after where
  calls := by
    change reader.calls file [keepComments] state = _
    rw [calls_cons, called]
    rfl
  ends := by simpa [Lexed.isFinal] using final
  others := by simp
  bound := Nat.zero_le _
  shown := by
    have shown := advances.shown
    rw [if_pos final] at shown
    exact shown.symm
  absorbed := by
    intro context setting
    have absorbed := advances.absorbed context setting
    rw [if_pos final] at absorbed
    exact absorbed.symm
  rests := advances.rests final

theorem Advances.reaches_further {inner : List Lexed} {last : Lexed} {left : State}
    (advances : Advances reader file keepComments state keeps (item, after))
    (called : reader.next keepComments file state = (item, after)) (goesOn : item.isFinal = false)
    (reaches : Reaches reader file keepComments after inner last left) :
    Reaches reader file keepComments state (item :: inner) last left where
  calls := by
    rw [List.length_cons, List.replicate_succ, calls_cons, called]
    simp only [reaches.calls, List.cons_append]
  ends := reaches.ends
  others := List.forall_mem_cons.2 ⟨by simpa [Lexed.isFinal] using goesOn, reaches.others⟩
  bound := by
    have lower := advances.lower goesOn
    have bound := reaches.bound
    simp only [List.length_cons] at lower ⊢
    omega
  shown := by
    have shown := advances.shown
    rw [if_neg (by simp [goesOn]), ← reaches.shown] at shown
    exact shown.symm
  absorbed := by
    intro context setting
    have settings := context.absorb_settings item
    have absorbed := advances.absorbed context setting
    rw [if_neg (by simp [goesOn]), ← reaches.absorbed _ (settings.2.trans setting)] at absorbed
    exact absorbed.symm
  rests := reaches.rests

end Reaches

/-- By induction on the weight, which every call lowers until the end of input. -/
theorem Finishes.reaches {keeps : State → Prop} (finishes : Finishes reader file keeps)
    (keepComments : Bool) (state : State) (kept : keeps state) :
    ∃ inner final left, Reaches reader file keepComments state inner final left := by
  induction measured : reader.weight state using Nat.strong_induction_on generalizing state with
  | _ weight induction =>
    have advances := finishes.next keepComments state kept
    generalize called : reader.next keepComments file state = next at advances
    obtain ⟨item, after⟩ := next
    by_cases final : item.isFinal = true
    · exact ⟨[], item, after, advances.reaches_end called final⟩
    · have goesOn : item.isFinal = false := by simpa using final
      obtain ⟨inner, last, left, reaches⟩ :=
        induction _ (measured ▸ advances.lower goesOn) after advances.keeps rfl
      exact ⟨item :: inner, last, left, advances.reaches_further called goesOn reaches⟩

end Lexical.Reader

namespace Python

namespace Lexer

theorem Ended.move {lexer : Lexer} (ended : lexer.Ended) (file : FileId) :
    lexer.move file = .emit (.silent .endOfInput (lexer.here file)) lexer := by
  have settled : ¬0 < lexer.blocks.owed := by simp [ended.owed]
  have place : lexer.cursor.skipWhile isBlankInLine = lexer.cursor := by
    simp [Cursor.skipWhile, ended.ahead, Cursor.skip]
  rw [Lexer.move, if_neg settled, if_neg (by simp [ended.inLine])]
  simp only [moveInLine, place, ended.ahead, List.isEmpty_nil, if_true, moveAtEnd, ended.widths]

theorem moveAtLineStart_entries (file : FileId) (lexer : Lexer) :
    ∀ item ∈ (lexer.moveAtLineStart file).item, ∀ entry ∈ item.entries,
      entry.token = item.token := by
  simp only [moveAtLineStart]
  split
  · simp [Move.pass]
  · split
    · simp [Move.pass]
    · split
      · simp [Move.emit, commentItem, Scan.lexed]
      · split
        · simp [Move.pass]
        · simp [Move.emit, Lexed.silent]
        · simp [Move.emit, Lexed.silent]
        · simp [Move.emit]

theorem moveAtEnd_entries (file : FileId) (lexer : Lexer) :
    ∀ item ∈ (lexer.moveAtEnd file).item, ∀ entry ∈ item.entries, entry.token = item.token := by
  unfold moveAtEnd
  split
  · simp [Move.emit, Lexed.silent]
  · simp [Move.emit, Lexed.silent]

theorem moveAtLineFeed_entries (file : FileId) (lexer : Lexer) :
    ∀ item ∈ (lexer.moveAtLineFeed file).item, ∀ entry ∈ item.entries,
      entry.token = item.token := by
  simp only [moveAtLineFeed]
  split
  · simp [Move.pass]
  · split
    · simp [Move.emit, Lexed.silent]
    · simp [Move.pass]

theorem moveInLine_entries (file : FileId) (lexer : Lexer) :
    ∀ item ∈ (lexer.moveInLine file).item, ∀ entry ∈ item.entries, entry.token = item.token := by
  simp only [moveInLine]
  split
  · exact moveAtEnd_entries file _
  · split
    · simp [Move.emit, commentItem, Scan.lexed]
    · split
      · exact moveAtLineFeed_entries file _
      · split
        · simp [Move.pass]
        · simp [moveAtToken, Move.emit, Scan.lexed]

theorem move_entries (file : FileId) (lexer : Lexer) :
    ∀ item ∈ (lexer.move file).item, ∀ entry ∈ item.entries, entry.token = item.token := by
  unfold move
  split
  · simp [Move.emit, Lexed.silent]
  · split
    · exact moveAtLineStart_entries file lexer
    · exact moveInLine_entries file lexer

end Lexer

theorem finishes (file : FileId) : Reader.Finishes reader file fun _ => True where
  move := fun _ _ => trivial
  comments := fun lexer _ item handed isComment entry recorded =>
    (Lexer.move_entries file lexer item handed entry recorded).trans isComment
  rests := by
    intro lexer _ item handed final
    change item ∈ (lexer.move file).item at handed
    change reader.RestsAt file item.span (lexer.move file).state
    obtain ⟨ended, atEnd, moved⟩ := Lexer.move_final
      (by rw [Move.isFinal, Option.mem_def.1 handed]; exact final : (lexer.move file).isFinal = true)
    rw [moved] at handed ⊢
    cases handed
    exact ⟨_, atEnd.move file, rfl, rfl, by simp [Lexed.silent]⟩

end Python

namespace Haskell

/-- A layout to which the end of input adds nothing. -/
structure Layout.Settled (layout : Layout) : Prop where
  started : layout.started = true
  opener : layout.opener = none
  explicit : Layout.IsExplicit layout.blocks

theorem Layout.step_settled {written : Written} (final : written.token = .endOfInput)
    (layout : Layout) : (layout.step written).2.Settled := by
  have passed : ∀ layout : Layout, layout.started = true → layout.opener = none →
      (layout.continueBlock written).2.Settled := by
    intro layout started opener
    simp only [continueBlock, align_endOfInput written layout final, final, pass, openFor]
    exact ⟨started, opener, splitBlocks_all _⟩
  unfold step
  rw [if_neg (by simp [opensText, final])]
  split
  · simp only [startBlock, final, reduceCtorEq, if_false, ne_eq, not_true_eq_false, false_and]
    exact passed _ rfl rfl
  · rename_i none
    exact passed _ rfl none

theorem Layout.splitBlocks_of_explicit {blocks : List Block} (explicit : IsExplicit blocks)
    (closes : ImplicitBlock → Bool) : splitBlocks closes blocks = (0, blocks) := by
  cases blocks with
  | nil => rfl
  | cons block outer =>
    cases block with
    | implicit block => exact absurd rfl (explicit block)
    | explicit => rfl

theorem Layout.Settled.step {layout : Layout} (settled : layout.Settled) {written : Written}
    (final : written.token = .endOfInput) : layout.step written = ([], layout) := by
  obtain ⟨blocks, opener, started, depth⟩ := layout
  obtain ⟨rfl, rfl, explicit⟩ := settled
  simp [Layout.step, opensText, final, continueBlock, align_endOfInput, pass, closeFor, closeWhile,
    splitBlocks_of_explicit explicit, openFor]

namespace Lexer

structure Settled (lexer : Lexer) : Prop where
  ahead : lexer.cursor.ahead = []
  line : lexer.lastLine = some lexer.cursor.position.line
  proper : lexer.properEnd = none
  layout : lexer.layout.Settled

theorem place_of_ended {lexer : Lexer} (ended : lexer.cursor.ahead = []) :
    lexer.place = lexer.cursor := by
  simp [place, Cursor.skipWhile, ended, Cursor.skip]

theorem Settled.rests {lexer : Lexer} (settled : lexer.Settled) (idle : lexer.pending = [])
    (file : FileId) : reader.RestsAt file (spanAhead file lexer.cursor 0) lexer := by
  have place := place_of_ended settled.ahead
  have ended : lexer.place.ahead = [] := by rw [place, settled.ahead]
  have scanned := nextScan_ended ended
  have other : lexer.nextScan.token ≠ .comment := by simp [scanned]
  have past : lexer.pastNext = lexer := by
    obtain ⟨cursor, lastLine, properEnd, layout, pending⟩ := lexer
    obtain ⟨ahead, line, proper, -⟩ := settled
    simp only at line proper
    rw [pastNext, if_neg other, scanned, place, line, proper]
    rfl
  have final : (lexer.nextWritten file).token = .endOfInput := by
    change lexer.nextScan.token = .endOfInput
    rw [scanned]
  have stepped := settled.layout.step final
  have moved : reader.move file lexer = .emit (lexer.nextItem file) lexer := by
    rw [move_of_idle file idle, read_of_written other, stepped, past]
    rfl
  refine ⟨_, moved, ?_, ?_, ?_⟩
  · rw [located_nextItem, nextWritten, scanned, place]
  · simp [nextItem, scanned, Scan.lexed]
  · simp [nextItem, scanned, Scan.lexed, Lexeme.Category.ofToken?]

/-- Tokens that wait record nothing. Only the last of them may be the end of input, and then the lexer
is settled at its place. -/
def Waits (file : FileId) (lexer : Lexer) : Prop :=
  (∀ item ∈ lexer.pending, item.entries = []) ∧
    (lexer.pending = [] ∨ ∃ added last, lexer.pending = added ++ [last] ∧
      (∀ item ∈ added, item.isFinal = false) ∧
        (last.isFinal = true → lexer.Settled ∧ last.span = spanAhead file lexer.cursor 0))

theorem pastNext_settled {lexer : Lexer} (ended : lexer.place.ahead = []) {layout : Layout}
    (settled : layout.Settled) :
    ({ lexer.pastNext with layout } : Lexer).Settled ∧
      lexer.pastNext.cursor = lexer.place := by
  have scanned := nextScan_ended ended
  have past : lexer.pastNext =
      { lexer with
        cursor := lexer.place
        lastLine := some lexer.place.position.line
        properEnd := none } := by
    rw [pastNext, if_neg (by simp [scanned]), scanned]
    rfl
  rw [past]
  exact ⟨⟨ended, rfl, rfl, settled⟩, rfl⟩

theorem ahead_of_final {lexer : Lexer} (final : lexer.nextScan.token = .endOfInput) :
    lexer.place.ahead = [] := by
  apply Classical.byContradiction
  intro remains
  exact nextScan_inner remains final

/-- Whether tokens wait makes no difference to whether a lexer is settled. -/
theorem Settled.withPending {lexer : Lexer} (settled : lexer.Settled) (pending : List Lexed) :
    ({ lexer with pending } : Lexer).Settled :=
  ⟨settled.ahead, settled.line, settled.proper, settled.layout⟩

/-- Reading the end of input settles the lexer, whatever layout adds in front of it. -/
theorem settled_of_final {file : FileId} {lexer : Lexer}
    (final : lexer.nextScan.token = .endOfInput) :
    ({ lexer.pastNext with
      layout := (lexer.layout.step (lexer.nextWritten file)).2 } : Lexer).Settled ∧
      (lexer.nextWritten file).span = spanAhead file lexer.pastNext.cursor 0 := by
  have ended := ahead_of_final final
  have layout : (lexer.layout.step (lexer.nextWritten file)).2.Settled :=
    Layout.step_settled final lexer.layout
  have settled := pastNext_settled ended layout
  refine ⟨settled.1, ?_⟩
  rw [settled.2, nextWritten, nextScan_ended ended]

theorem read_waits {file : FileId} {lexer : Lexer} (idle : lexer.pending = []) :
    (lexer.read file).state.Waits file ∧
      ∀ item ∈ (lexer.read file).item, item.RecordsOnlyComments ∧
        (item.isFinal = true → reader.RestsAt file item.span (lexer.read file).state) := by
  have idlePast : lexer.pastNext.pending = [] := (pending_pastNext lexer).trans idle
  by_cases comment : lexer.nextScan.token = .comment
  · rw [read_of_comment comment]
    constructor
    · simp [Waits, Move.emit, idlePast]
    · intro item handed
      cases handed
      constructor
      · simp [Lexed.RecordsOnlyComments, nextItem, Scan.lexed]
      · simp [Lexed.isFinal, nextItem, Scan.lexed, comment]
  · rw [read_of_written comment]
    have known := Layout.step_added (lexer.nextWritten file) lexer.layout
    cases added : (lexer.layout.step (lexer.nextWritten file)).1 with
    | nil =>
      constructor
      · simp [release, Waits, Move.emit, idlePast]
      · intro item handed
        cases handed
        constructor
        · simp [Lexed.RecordsOnlyComments, nextItem, Scan.lexed]
        · intro final
          obtain ⟨settled, place⟩ := settled_of_final (of_decide_eq_true final)
          change reader.RestsAt file (lexer.nextWritten file).span _
          rw [place]
          exact settled.rests idlePast file
    | cons first later =>
      rw [added, Layout.areAdded_cons] at known
      constructor
      · refine ⟨?_, Or.inr ⟨later.map fun token => .silent token _, _, rfl, ?_, ?_⟩⟩
        · intro item waiting
          rcases List.mem_append.1 waiting with fresh | final
          · obtain ⟨token, -, rfl⟩ := List.mem_map.1 fresh
            rfl
          · rw [List.mem_singleton.1 final]
            rfl
        · intro item waiting
          obtain ⟨token, member, rfl⟩ := List.mem_map.1 waiting
          exact decide_eq_false (Layout.added_ne_endOfInput (known.2 token member))
        · intro final
          obtain ⟨settled, place⟩ := settled_of_final (of_decide_eq_true final)
          exact ⟨settled.withPending _, place⟩
      · intro item handed
        cases handed
        constructor
        · intro isComment
          exact absurd isComment (Layout.added_ne_comment known.1)
        · intro final
          exact absurd (of_decide_eq_true final) (Layout.added_ne_endOfInput known.1)

theorem move_waits {file : FileId} {lexer : Lexer} (waits : lexer.Waits file) :
    (lexer.move file).state.Waits file ∧
      ∀ item ∈ (lexer.move file).item, item.RecordsOnlyComments ∧
        (item.isFinal = true → reader.RestsAt file item.span (lexer.move file).state) := by
  obtain ⟨silent, idle | ⟨added, last, found, inner, settles⟩⟩ := waits
  · rw [show lexer.move file = lexer.read file from move_of_idle file idle]
    exact read_waits idle
  · rw [found] at silent
    unfold move
    rw [found]
    cases added with
    | nil =>
      simp only [List.nil_append] at silent ⊢
      refine ⟨⟨by simp [Move.emit], Or.inl rfl⟩, ?_⟩
      intro item handed
      cases handed
      constructor
      · simp [Lexed.RecordsOnlyComments, silent]
      · intro final
        obtain ⟨settled, place⟩ := settles final
        rw [place]
        exact (settled.withPending []).rests rfl file
    | cons first added =>
      rw [List.cons_append, List.forall_mem_cons] at silent
      rw [List.forall_mem_cons] at inner
      refine ⟨⟨silent.2, Or.inr ⟨added, last, rfl, inner.2, ?_⟩⟩, ?_⟩
      · intro final
        obtain ⟨settled, place⟩ := settles final
        exact ⟨settled.withPending _, place⟩
      · intro item handed
        cases handed
        constructor
        · simp [Lexed.RecordsOnlyComments, silent.1]
        · intro final
          rw [inner.1] at final
          cases final

end Lexer

theorem finishes (file : FileId) : Reader.Finishes reader file (Lexer.Waits file) where
  move := fun _ waits => (Lexer.move_waits waits).1
  comments := fun _ waits item handed => ((Lexer.move_waits waits).2 item handed).1
  rests := fun _ waits item handed => ((Lexer.move_waits waits).2 item handed).2

end Haskell

def Context.pulls : Nat → Context → TokenSource → List Lexed × TokenSource × Context
  | 0, context, source => ([], source, context)
  | count + 1, context, source =>
    let (item, left, after) := context.pull source
    let (items, final) := Context.pulls count after left
    (item :: items, final)

structure TokenSource.Wraps {State : Type} (reader : Reader State)
    (wrap : State → TokenSource) : Prop where
  next : ∀ (keepComments : Bool) (file : FileId) (state : State),
    (wrap state).next keepComments file =
      ((reader.next keepComments file state).1, wrap (reader.next keepComments file state).2)

section

variable {State : Type} {reader : Reader State} {wrap : State → TokenSource}

/-- Pulling tokens is calling the reader, with the settings of the context. -/
theorem TokenSource.Wraps.pulls (wraps : TokenSource.Wraps reader wrap) (count : Nat)
    (context : Context) (state : State) :
    context.pulls count (wrap state) =
      let called := reader.calls context.file (List.replicate count context.keepComments) state
      (called.1, wrap called.2, context.absorbAll called.1) := by
  induction count generalizing context state with
  | zero => rfl
  | succ count induction =>
    have pulled : context.pull (wrap state) =
        ((reader.next context.keepComments context.file state).1,
          wrap (reader.next context.keepComments context.file state).2,
          context.absorb (reader.next context.keepComments context.file state).1) := by
      rw [Context.pull, wraps.next]
    have settings := context.absorb_settings
      (reader.next context.keepComments context.file state).1
    simp only [Context.pulls, pulled, induction, settings.1, settings.2, List.replicate_succ,
      Reader.calls_cons]
    rfl

theorem Context.absorbAll_mute {items : List Lexed} (mute : ∀ item ∈ items, item.IsMute)
    (context : Context) : context.absorbAll items = context := by
  induction items with
  | nil => rfl
  | cons item later induction =>
    rw [List.forall_mem_cons] at mute
    change (context.absorb item).absorbAll later = context
    rw [context.absorb_mute mute.1]
    exact induction mute.2

theorem Context.absorbAll_settings (items : List Lexed) (context : Context) :
    (context.absorbAll items).file = context.file ∧
      (context.absorbAll items).keepComments = context.keepComments := by
  induction items generalizing context with
  | nil => exact ⟨rfl, rfl⟩
  | cons item later induction =>
    have first := context.absorb_settings item
    have others := induction (context.absorb item)
    exact ⟨others.1.trans first.1, others.2.trans first.2⟩

theorem TokenSource.Wraps.finish (wraps : TokenSource.Wraps reader wrap) (context : Context)
    {state left : State} {inner : List Lexed} {final : Lexed}
    (reaches : reader.Reaches context.file context.keepComments state inner final left) :
    let after := context.absorbAll (reader.items context.file state)
    context.pulls (inner.length + 1) (wrap state) = (inner ++ [final], wrap left, after) ∧
      ∀ more, ∃ items, after.pulls more (wrap left) = (items, wrap left, after) ∧
        items.map Lexed.located = List.replicate more final.located := by
  intro after
  constructor
  · simp only [wraps.pulls, reaches.calls, reaches.absorbed context rfl]
    rfl
  · intro more
    have settings := context.absorbAll_settings (reader.items context.file state)
    obtain ⟨items, calls, located, mute⟩ := reaches.rests.calls context.keepComments more
    have same : final.located = (.endOfInput, final.span) := Prod.ext reaches.ends rfl
    refine ⟨items, ?_, by rw [located, same]⟩
    simp only [wraps.pulls, after, settings.1, settings.2, calls, Context.absorbAll_mute mute]

end

theorem python_wraps : TokenSource.Wraps Python.reader .python where
  next := fun _ _ _ => rfl

theorem haskell_wraps : TokenSource.Wraps Haskell.reader .haskell where
  next := fun _ _ _ => rfl

end Offside
