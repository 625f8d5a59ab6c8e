import Offside.Context
import Offside.Lexical.Reader
import Offside.Proofs.Source.Slices

/-!
Calls of a reader, one after another. Each call says for itself whether comments are kept, and makes
as many moves as it takes to hand out a token. What every move keeps is therefore kept by every call,
as long as comments make no difference to it.
-/

namespace Offside.Lexical

set_option autoImplicit false

def Lexed.located (item : Lexed) : Token × Span := (item.token, item.span)

namespace Reader

variable {State : Type} {reader : Reader State} {file : FileId} {state after : State} {item : Lexed}

theorem items_of_pass (moved : reader.move file state = .pass after) :
    reader.items file state = reader.items file after := by
  rw [items]
  split
  · rename_i found
    have reached : (reader.move file state).state = after := by rw [moved]; rfl
    change reader.items file (reader.move file state).state = _
    rw [reached]
  · rename_i other found
    rw [moved] at found
    cases found

theorem items_of_final (moved : reader.move file state = .emit item after)
    (final : item.isFinal = true) : reader.items file state = [item] := by
  rw [items]
  split
  · rename_i found
    rw [moved] at found
    cases found
  · rename_i other found
    rw [moved] at found
    cases found
    rw [dif_pos final]

theorem items_of_emit (moved : reader.move file state = .emit item after)
    (goesOn : item.isFinal = false) :
    reader.items file state = item :: reader.items file after := by
  rw [items]
  split
  · rename_i found
    rw [moved] at found
    cases found
  · rename_i other found
    have handed := found
    rw [moved] at handed
    cases handed
    have reached : (reader.move file state).state = after := by rw [moved]; rfl
    rw [dif_neg (by rw [goesOn]; exact Bool.false_ne_true)]
    change item :: reader.items file (reader.move file state).state = _
    rw [reached]

/-- A move that is not final hands out its item, if it has one, in front of all that come. -/
theorem items_of_move (inner : (reader.move file state).isFinal = false) :
    reader.items file state = (reader.move file state).item.toList ++
      reader.items file (reader.move file state).state := by
  cases handed : (reader.move file state).item with
  | none => exact items_of_pass (by rw [Move.pass, ← handed])
  | some item =>
    refine items_of_emit (by rw [Move.emit, ← handed]) ?_
    simpa [Move.isFinal, handed] using inner

/-- The tokens of calls with the given settings for comments, and the state after them. -/
def calls (reader : Reader State) (file : FileId) : List Bool → State → List Lexed × State
  | [], state => ([], state)
  | keepComments :: later, state =>
    let called := reader.next keepComments file state
    let others := calls reader file later called.2
    (called.1 :: others.1, others.2)

@[simp] theorem calls_nil (state : State) : reader.calls file [] state = ([], state) := rfl

theorem calls_cons (keepComments : Bool) (later : List Bool) (state : State) :
    reader.calls file (keepComments :: later) state =
      ((reader.next keepComments file state).1 ::
          (reader.calls file later (reader.next keepComments file state).2).1,
        (reader.calls file later (reader.next keepComments file state).2).2) :=
  rfl

/-- Fewer calls hand out the first of the tokens that more calls do. -/
theorem calls_take (count : Nat) (settings : List Bool) (state : State) :
    (reader.calls file (settings.take count) state).1 =
      (reader.calls file settings state).1.take count := by
  induction settings generalizing count state with
  | nil => simp
  | cons keepComments later induction =>
    cases count with
    | zero => rfl
    | succ count =>
      rw [List.take_succ_cons, calls_cons, calls_cons, List.take_succ_cons, induction]

theorem next_last (keepComments : Bool) (state : State) :
    ∃ before item,
      reader.move file before = .emit item (reader.next keepComments file state).2 ∧
        item.located = (reader.next keepComments file state).1.located := by
  fun_induction Reader.next reader keepComments file state with
  | case1 state found lower induction => exact induction
  | case2 state item found comment lower later final called induction =>
    rw [called] at induction
    exact induction
  | case3 state item found shown =>
    refine ⟨state, item, ?_, rfl⟩
    rw [Move.emit, ← found]

theorem calls_last {settings : List Bool} {state : State} {item : Lexed}
    (last : (reader.calls file settings state).1.getLast? = some item) :
    ∃ before emitted,
      reader.move file before = .emit emitted (reader.calls file settings state).2 ∧
        emitted.located = item.located := by
  induction settings generalizing state with
  | nil => cases last
  | cons keepComments later induction =>
    cases later with
    | nil =>
      cases last
      exact next_last keepComments state
    | cons further later =>
      rw [calls_cons, calls_cons] at last
      rw [calls_cons]
      apply induction
      rw [calls_cons]
      simpa using last

/-- What every move keeps of the tokens handed out so far and of the state, comments making no
difference. -/
structure Invariant (reader : Reader State) (file : FileId)
    (keeps : List (Token × Span) → State → Prop) : Prop where
  move : ∀ handed state, keeps handed state →
    keeps (handed ++ (reader.move file state).item.toList.map Lexed.located)
      (reader.move file state).state
  comment : ∀ handed span state, keeps (handed ++ [(.comment, span)]) state → keeps handed state

namespace Invariant

variable {keeps : List (Token × Span) → State → Prop}

theorem next (invariant : Invariant reader file keeps) (keepComments : Bool) (state : State)
    {handed : List (Token × Span)} (kept : keeps handed state) :
    keeps (handed ++ [(reader.next keepComments file state).1.located])
      (reader.next keepComments file state).2 := by
  have moved := invariant.move handed state kept
  fun_induction Reader.next reader keepComments file state with
  | case1 state found lower induction =>
    rw [found] at moved
    have same : keeps handed (reader.move file state).state := by simpa using moved
    exact induction same (invariant.move handed _ same)
  | case2 state item found comment lower later final called induction =>
    rw [found] at moved
    have shown : item.located = (.comment, item.span) := Prod.ext comment.1 rfl
    have same : keeps handed (reader.move file state).state := by
      apply invariant.comment handed item.span
      rw [← shown]
      exact moved
    rw [called] at induction
    exact induction same (invariant.move handed _ same)
  | case3 state item found shown =>
    rw [found] at moved
    exact moved

theorem calls (invariant : Invariant reader file keeps) (settings : List Bool) (state : State)
    {handed : List (Token × Span)} (kept : keeps handed state) :
    keeps (handed ++ (reader.calls file settings state).1.map Lexed.located)
      (reader.calls file settings state).2 := by
  induction settings generalizing state handed with
  | nil => simpa using kept
  | cons keepComments later induction =>
    have called := induction _ (invariant.next keepComments state kept)
    rw [calls_cons, List.map_cons]
    rw [List.append_assoc, List.singleton_append] at called
    exact called

end Invariant

end Reader

end Offside.Lexical

/-!
What a context has taken in once tokens were read: their reports in order, and a table of the entries
that were worth recording. Where no two of these stand at one place, nothing is replaced and the table
holds exactly the entries.
-/

namespace Offside

set_option autoImplicit false

open Offside.Lexical

namespace Lexical

/-- The lexeme that an entry leaves in a table, if its kind of token is recorded. -/
def Entry.lexeme? (entry : Entry) : Option Lexeme :=
  (Lexeme.Category.ofToken? entry.token).map (⟨·, entry.text⟩)

/-- No two entries that leave a lexeme stand at one place. -/
def Entry.AreApart (entries : List Entry) : Prop :=
  entries.Pairwise fun earlier later =>
    earlier.lexeme?.isSome = true → later.lexeme?.isSome = true → earlier.place ≠ later.place

def entriesOf (items : List Lexed) : List Entry := items.flatMap Lexed.entries

def reportsOf (items : List Lexed) : List Diagnostic := items.flatMap Lexed.reports

end Lexical

namespace LexemeTable

def recordEntry (table : LexemeTable) (entry : Entry) : LexemeTable :=
  table.record entry.token entry.place entry.text

def recordAll (table : LexemeTable) (entries : List Entry) : LexemeTable :=
  entries.foldl recordEntry table

theorem recordEntry_of_none {entry : Entry} (fixed : entry.lexeme? = none)
    (table : LexemeTable) : table.recordEntry entry = table := by
  apply record_of_fixed
  simpa [Entry.lexeme?] using fixed

theorem get?_recordEntry_of_some {entry : Entry} {lexeme : Lexeme}
    (recorded : entry.lexeme? = some lexeme) (table : LexemeTable) (place : Position) :
    (table.recordEntry entry).get? place =
      if entry.place = place then some lexeme else table.get? place := by
  simp only [Entry.lexeme?, Option.map_eq_some_iff] at recorded
  obtain ⟨category, found, rfl⟩ := recorded
  exact get?_record table entry.token entry.place place entry.text category found

theorem get?_recordAll_spared {entries : List Entry} {place : Position}
    (spared : ∀ entry ∈ entries, entry.lexeme?.isSome = true → entry.place ≠ place)
    (table : LexemeTable) : (table.recordAll entries).get? place = table.get? place := by
  induction entries generalizing table with
  | nil => rfl
  | cons entry later induction =>
    rw [List.forall_mem_cons] at spared
    change ((table.recordEntry entry).recordAll later).get? place = _
    rw [induction spared.2]
    cases found : entry.lexeme? with
    | none => rw [recordEntry_of_none found]
    | some own =>
      rw [get?_recordEntry_of_some found, if_neg (spared.1 (by simp [found]))]

/-- By induction over the entries: a later one leaves the places of the earlier ones alone. -/
theorem get?_recordAll {entries : List Entry} (apart : Entry.AreApart entries)
    (table : LexemeTable)
    (free : ∀ entry ∈ entries, entry.lexeme?.isSome = true → table.get? entry.place = none)
    (place : Position) (lexeme : Lexeme) :
    (table.recordAll entries).get? place = some lexeme ↔
      table.get? place = some lexeme ∨
        ∃ entry ∈ entries, entry.place = place ∧ entry.lexeme? = some lexeme := by
  induction entries generalizing table with
  | nil => simp [recordAll]
  | cons entry later induction =>
    rw [Entry.AreApart, List.pairwise_cons] at apart
    rw [List.forall_mem_cons] at free
    change ((table.recordEntry entry).recordAll later).get? place = some lexeme ↔ _
    cases found : entry.lexeme? with
    | none =>
      rw [recordEntry_of_none found, induction apart.2 table free.2]
      simp [found]
    | some own =>
      have same := get?_recordEntry_of_some found table
      have others : ∀ other ∈ later, other.lexeme?.isSome = true →
          (table.recordEntry entry).get? other.place = none := by
        intro other member recorded
        have differs := apart.1 other member (by simp [found]) recorded
        rw [same, if_neg differs]
        exact free.2 other member recorded
      rw [induction apart.2 _ others, same]
      by_cases here : entry.place = place
      · have empty : table.get? place = none := by
          rw [← here]
          exact free.1 (by simp [found])
        simp [here, found, empty]
      · simp [here]

theorem get?_empty (place : Position) : empty.get? place = none := by
  simp [get?, empty]

theorem get?_recordAll_empty {entries : List Entry} (apart : Entry.AreApart entries)
    (place : Position) (lexeme : Lexeme) :
    (empty.recordAll entries).get? place = some lexeme ↔
      ∃ entry ∈ entries, entry.place = place ∧ entry.lexeme? = some lexeme := by
  rw [get?_recordAll apart empty (fun entry _ _ => get?_empty entry.place)]
  simp [get?_empty]

end LexemeTable

namespace Context

theorem recordEntry_eq (context : Context) (entry : Entry) :
    context.recordEntry entry =
      { context with
        lexemes := context.lexemes.recordAll ([entry].filter context.records) } := by
  unfold recordEntry
  by_cases recorded : context.records entry = true
  · rw [if_pos recorded, List.filter_cons_of_pos recorded]
    rfl
  · rw [if_neg recorded, List.filter_cons_of_neg recorded]
    rfl

theorem foldl_recordEntry_eq (entries : List Entry) (context : Context) :
    entries.foldl recordEntry context =
      { context with lexemes := context.lexemes.recordAll (entries.filter context.records) } := by
  induction entries generalizing context with
  | nil => rfl
  | cons entry later induction =>
    rw [List.foldl_cons, induction, recordEntry_eq]
    by_cases recorded : context.records entry = true
    · rw [List.filter_cons_of_pos recorded, List.filter_cons_of_pos recorded]
      rfl
    · rw [List.filter_cons_of_neg recorded, List.filter_cons_of_neg recorded]
      rfl

theorem absorb_eq (context : Context) (item : Lexed) :
    context.absorb item =
      { context with
        diagnostics := context.diagnostics ++ item.reports
        lexemes := context.lexemes.recordAll (item.entries.filter context.records) } :=
  foldl_recordEntry_eq item.entries _

theorem absorbAll_eq (context : Context) (items : List Lexed) :
    context.absorbAll items =
      { context with
        diagnostics := context.diagnostics ++ reportsOf items
        lexemes := context.lexemes.recordAll ((entriesOf items).filter context.records) } := by
  induction items generalizing context with
  | nil =>
    have none : context.diagnostics ++ ([] : List Diagnostic) = context.diagnostics := by
      rw [← Array.toList_inj]
      simp
    simp only [reportsOf, entriesOf, List.flatMap_nil, none]
    rfl
  | cons item later induction =>
    have joined : context.diagnostics ++ item.reports ++ reportsOf later =
        context.diagnostics ++ reportsOf (item :: later) := by
      rw [← Array.toList_inj]
      simp [reportsOf]
    change (context.absorb item).absorbAll later = _
    rw [induction, absorb_eq]
    simp only [joined, entriesOf, List.flatMap_cons, List.filter_append, LexemeTable.recordAll,
      List.foldl_append]
    rfl

/-- What is reported when a token is taken in does not depend on what is recorded. -/
theorem diagnostics_absorbAll (context : Context) (items : List Lexed) :
    (context.absorbAll items).diagnostics = context.diagnostics ++ reportsOf items := by
  rw [absorbAll_eq]

end Context

namespace Lexical.Reader

variable {State : Type} {reader : Reader State} {file : FileId}

/-- A move that records only in the stretch of text that it passes. -/
structure RecordsBetween (place : State → Position) (start : Position) (move : Move State) :
    Prop where
  reached : start ≤ place move.state
  entries : ∀ item ∈ move.item,
    item.entries = [] ∨ ∃ entry, item.entries = [entry] ∧ start ≤ entry.place ∧
      entry.place < place move.state

/-- By induction over the moves: entries stand one behind the other. -/
theorem increasing_entries {keeps : State → Prop} {place : State → Position}
    (step : ∀ state, keeps state →
      RecordsBetween place (place state) (reader.move file state) ∧
        keeps (reader.move file state).state)
    (state : State) (kept : keeps state) :
    (entriesOf (reader.items file state)).Pairwise
        (fun earlier later => earlier.place < later.place) ∧
      ∀ entry ∈ entriesOf (reader.items file state), place state ≤ entry.place := by
  fun_induction Reader.items reader file state with
  | case1 state found lower induction =>
    obtain ⟨moved, keptNext⟩ := step state kept
    obtain ⟨increasing, behind⟩ := induction keptNext
    exact ⟨increasing, fun entry member =>
      Position.le_trans moved.reached (behind entry member)⟩
  | case2 state item found final =>
    simp only [entriesOf, List.flatMap_cons, List.flatMap_nil, List.append_nil]
    rcases (step state kept).1.entries item found with none | ⟨entry, one, after, -⟩
    · simp [none]
    · simpa [one] using after
  | case3 state item found goesOn lower induction =>
    obtain ⟨moved, keptNext⟩ := step state kept
    obtain ⟨increasing, behind⟩ := induction keptNext
    have later : ∀ entry ∈ entriesOf (reader.items file (reader.move file state).state),
        place state ≤ entry.place := fun entry member =>
      Position.le_trans moved.reached (behind entry member)
    change (item.entries ++ entriesOf _).Pairwise _ ∧ ∀ entry ∈ item.entries ++ entriesOf _, _
    rcases moved.entries item found with none | ⟨entry, one, after, before⟩
    · rw [none]
      exact ⟨increasing, later⟩
    · rw [one]
      refine ⟨List.pairwise_cons.2 ⟨?_, increasing⟩, List.forall_mem_cons.2 ⟨after, later⟩⟩
      intro other member
      exact Position.lt_of_lt_of_le before (behind other member)

end Lexical.Reader

theorem Lexical.Entry.areApart_of_increasing {entries : List Entry}
    (increasing : entries.Pairwise fun earlier later => earlier.place < later.place) :
    Entry.AreApart entries :=
  increasing.imp fun before _ _ => Position.ne_of_lt before

theorem Lexical.Entry.AreApart.sublist {entries fewer : List Entry}
    (apart : Entry.AreApart entries) (sublist : fewer.Sublist entries) : Entry.AreApart fewer :=
  List.Pairwise.sublist sublist apart

end Offside
