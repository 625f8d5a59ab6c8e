import Offside.Proofs.Lexical.Finish
import Offside.Proofs.Lexical.Spellings

/-!
Calls that keep some comments and drop others. Each call reads the items of a text up to the first one
that it hands out, so any calls together read all of them. What they hand out, report and record
differs at most by comments from what calls do that drop every comment.
-/

namespace Offside

set_option autoImplicit false

open Offside.Lexical

def Context.pullsWith : List Bool → Context → TokenSource → List Lexed × TokenSource × Context
  | [], context, source => ([], source, context)
  | keepComments :: later, context, source =>
    let (item, left, after) := { context with keepComments }.pull source
    let (items, final) := Context.pullsWith later after left
    (item :: items, final)

namespace Lexical

def Entry.isComment (entry : Entry) : Bool := entry.token = .comment

/-- The entries of tokens that are recorded under their settings. -/
def keptEntries : List Bool → List Lexed → List Entry
  | keepComments :: settings, item :: later =>
    item.entries.filter (fun entry => keepComments || entry.token != .comment) ++
      keptEntries settings later
  | _, _ => []

/-- Entries of comments aside, these are the same entries in the same order. -/
def Entry.Agree (left right : List Entry) : Prop :=
  left.filter (!·.isComment) = right.filter (!·.isComment)

namespace Reader

variable {State : Type} {reader : Reader State} {file : FileId}

structure Reads (reader : Reader State) (file : FileId) (state : State) (called : Lexed × State)
    (dropped : List Lexed) (item : Lexed) : Prop where
  items : reader.items file state =
    dropped ++ item :: if item.isFinal then [] else reader.items file called.2
  handed : called.1 = { item with reports := reportsOf dropped ++ item.reports }
  comments : ∀ comment ∈ dropped, comment.token = .comment

theorem next_reads (keepComments : Bool) (state : State) :
    ∃ dropped item,
      Reads reader file state (reader.next keepComments file state) dropped item := by
  fun_induction Reader.next reader keepComments file state with
  | case1 state found lower induction =>
    have pass : reader.move file state = .pass (reader.move file state).state := by
      rw [Move.pass, ← found]
    obtain ⟨dropped, item, reads⟩ := induction
    refine ⟨dropped, item, ?_, reads.handed, reads.comments⟩
    rw [items_of_pass pass]
    exact reads.items
  | case2 state comment found isComment lower later final called induction =>
    have emits : reader.move file state = .emit comment (reader.move file state).state := by
      rw [Move.emit, ← found]
    have goesOn : comment.isFinal = false := by simp [Lexed.isFinal, isComment.1]
    rw [called] at induction
    obtain ⟨dropped, item, reads⟩ := induction
    have handed : later = { item with reports := reportsOf dropped ++ item.reports } :=
      reads.handed
    refine ⟨comment :: dropped, item, ?_, ?_, ?_⟩
    · rw [items_of_emit emits goesOn, reads.items]
      rfl
    · simp [handed, reportsOf]
    · exact List.forall_mem_cons.2 ⟨isComment.1, reads.comments⟩
  | case3 state item found shown =>
    have emits : reader.move file state = .emit item (reader.move file state).state := by
      rw [Move.emit, ← found]
    refine ⟨[], item, ?_, rfl, by simp⟩
    cases final : item.isFinal with
    | true => exact items_of_final emits final
    | false => exact items_of_emit emits final

theorem shown_false (items : List Lexed) :
    shown false items = (items.map Lexed.located).filter fun found => found.1 != .comment := by
  simp only [shown, Bool.false_or, List.filter_map]
  rfl

end Reader

theorem Entry.Agree.append {left right leftLater rightLater : List Entry}
    (first : Entry.Agree left right) (second : Entry.Agree leftLater rightLater) :
    Entry.Agree (left ++ leftLater) (right ++ rightLater) := by
  unfold Entry.Agree at *
  rw [List.filter_append, List.filter_append, first, second]

theorem Entry.agree_kept (keepComments : Bool) (entries : List Entry) :
    Entry.Agree (entries.filter fun entry => keepComments || entry.token != .comment) entries := by
  unfold Entry.Agree
  rw [List.filter_filter]
  apply List.filter_congr
  intro entry _
  by_cases comment : entry.token = .comment
  · simp [Entry.isComment, comment]
  · simp [Entry.isComment, comment]

/-- What comments that are dropped would have recorded are their own texts. -/
theorem Entry.agree_dropped {dropped : List Lexed}
    (comments : ∀ item ∈ dropped, item.token = .comment)
    (own : ∀ item ∈ dropped, item.RecordsOnlyComments) : Entry.Agree [] (entriesOf dropped) := by
  refine (List.filter_eq_nil_iff.2 ?_).symm
  intro entry member
  obtain ⟨item, among, recorded⟩ := List.mem_flatMap.1 member
  simp [Entry.isComment, own item among (comments item among) entry recorded]

/-- Tokens handed out under settings for comments, beside all items of the text that was read for
them. -/
structure Matches (settings : List Bool) (handed items : List Lexed) : Prop where
  shown : (handed.map Lexed.located).filter (fun found => found.1 != .comment) =
    (items.map Lexed.located).filter fun found => found.1 != .comment
  reports : reportsOf handed = reportsOf items
  recorded : (keptEntries settings handed).Sublist (entriesOf items)
  agree : Entry.Agree (keptEntries settings handed) (entriesOf items)

theorem matches_nil : Matches [] [] [] where
  shown := rfl
  reports := rfl
  recorded := List.Sublist.refl _
  agree := rfl

/-- One more token in front, which was read after comments that are dropped. -/
theorem Matches.cons {settings : List Bool} {handed items dropped : List Lexed}
    (matching : Matches settings handed items) (keepComments : Bool) (item : Lexed)
    (comments : ∀ comment ∈ dropped, comment.token = .comment)
    (own : ∀ comment ∈ dropped, comment.RecordsOnlyComments) :
    Matches (keepComments :: settings)
      ({ item with reports := reportsOf dropped ++ item.reports } :: handed)
      (dropped ++ item :: items) where
  shown := by
    have hidden : (dropped.map Lexed.located).filter (fun found => found.1 != .comment) = [] := by
      refine List.filter_eq_nil_iff.2 ?_
      intro found member
      obtain ⟨comment, among, rfl⟩ := List.mem_map.1 member
      simp [Lexed.located, comments comment among]
    rw [List.map_append, List.filter_append, hidden, List.nil_append, List.map_cons, List.map_cons,
      List.filter_cons, List.filter_cons, matching.shown]
    rfl
  reports := by
    have same := matching.reports
    simp only [reportsOf] at same ⊢
    simp [same]
  recorded := by
    have first : (item.entries.filter fun entry =>
        keepComments || entry.token != .comment).Sublist item.entries := List.filter_sublist
    have joined : entriesOf (dropped ++ item :: items) =
        entriesOf dropped ++ (item.entries ++ entriesOf items) := by simp [entriesOf]
    rw [joined]
    exact (first.append matching.recorded).trans (List.sublist_append_right _ _)
  agree := by
    have joined : entriesOf (dropped ++ item :: items) =
        entriesOf dropped ++ (item.entries ++ entriesOf items) := by simp [entriesOf]
    rw [joined]
    exact (Entry.agree_dropped comments own).append
      ((Entry.agree_kept keepComments item.entries).append matching.agree)

namespace Reader

variable {State : Type} {reader : Reader State} {file : FileId}

structure Mixes (reader : Reader State) (file : FileId) (settings : List Bool) (state : State)
    (inner : List Lexed) (final : Lexed) (left : State) : Prop where
  calls : reader.calls file settings state = (inner ++ [final], left)
  ends : final.token = .endOfInput
  others : ∀ item ∈ inner, item.token ≠ .endOfInput
  matching : Matches settings (inner ++ [final]) (reader.items file state)

/-- By induction on the items that are left, of which every call reads at least one. -/
theorem exists_mixes (state : State) (flags : Nat → Bool)
    (own : ∀ item ∈ reader.items file state, item.RecordsOnlyComments) :
    ∃ count inner final left,
      Mixes reader file ((List.range count).map flags) state inner final left := by
  induction measured : (reader.items file state).length using Nat.strong_induction_on
    generalizing state flags with
  | _ length induction =>
    obtain ⟨dropped, item, reads⟩ :
        ∃ dropped item, Reads reader file state (reader.next (flags 0) file state) dropped item :=
      next_reads (flags 0) state
    have items := reads.items
    rw [items] at own measured
    have ownDropped : ∀ comment ∈ dropped, comment.RecordsOnlyComments :=
      fun comment member => own comment (List.mem_append_left _ member)
    have token : (reader.next (flags 0) file state).1.token = item.token := by
      rw [reads.handed]
    cases final : item.isFinal with
    | true =>
      rw [final, if_pos rfl] at items
      have matching := matches_nil.cons (flags 0) item reads.comments ownDropped
      rw [← reads.handed, ← items] at matching
      refine ⟨1, [], (reader.next (flags 0) file state).1, (reader.next (flags 0) file state).2,
        rfl, ?_, by simp, matching⟩
      · rw [token]
        exact of_decide_eq_true final
    | false =>
      rw [final, if_neg (by simp)] at items own measured
      have fewer : (reader.items file (reader.next (flags 0) file state).2).length < length := by
        rw [← measured, List.length_append, List.length_cons]
        omega
      have ownLater : ∀ later ∈ reader.items file (reader.next (flags 0) file state).2,
          later.RecordsOnlyComments := fun later member =>
        own later (List.mem_append_right _ (List.mem_cons_of_mem _ member))
      obtain ⟨count, inner, last, left, mixes⟩ :=
        induction _ fewer _ (fun index => flags (index + 1)) ownLater rfl
      have settings : (List.range (count + 1)).map flags =
          flags 0 :: (List.range count).map fun index => flags (index + 1) := by
        rw [List.range_succ_eq_map, List.map_cons, List.map_map]
        rfl
      have matching := mixes.matching.cons (flags 0) item reads.comments ownDropped
      rw [← reads.handed, ← items] at matching
      refine ⟨count + 1, (reader.next (flags 0) file state).1 :: inner, last, left, ?_,
        mixes.ends, List.forall_mem_cons.2 ⟨?_, mixes.others⟩, ?_⟩
      · rw [settings, calls_cons, mixes.calls]
        rfl
      · rw [token]
        exact of_decide_eq_false final
      · rw [settings]
        exact matching

end Reader

end Lexical

namespace TokenSource

variable {State : Type} {reader : Reader State} {wrap : State → TokenSource}

/-- Pulling tokens under settings is calling the reader under them. -/
theorem Wraps.pullsWith (wraps : Wraps reader wrap) (settings : List Bool) (context : Context)
    (state : State) :
    ∃ after, context.pullsWith settings (wrap state) =
        ((reader.calls context.file settings state).1,
          wrap (reader.calls context.file settings state).2, after) ∧
      after.diagnostics =
        context.diagnostics ++ reportsOf (reader.calls context.file settings state).1 ∧
      after.lexemes = context.lexemes.recordAll
        (keptEntries settings (reader.calls context.file settings state).1) := by
  induction settings generalizing context state with
  | nil =>
    refine ⟨context, rfl, ?_, rfl⟩
    rw [← Array.toList_inj]
    simp [reportsOf]
  | cons keepComments later induction =>
    have pulled : ({ context with keepComments } : Context).pull (wrap state) =
        ((reader.next keepComments context.file state).1,
          wrap (reader.next keepComments context.file state).2,
          ({ context with keepComments } : Context).absorb
            (reader.next keepComments context.file state).1) := by
      rw [Context.pull, wraps.next]
    simp only [Context.pullsWith, pulled, Reader.calls_cons]
    generalize reader.next keepComments context.file state = called
    have absorbed := Context.absorb_eq { context with keepComments } called.1
    have file : (({ context with keepComments } : Context).absorb called.1).file =
        context.file := by rw [absorbed]
    obtain ⟨after, pulls, diagnostics, lexemes⟩ :=
      induction (({ context with keepComments } : Context).absorb called.1) called.2
    rw [file] at pulls diagnostics lexemes
    refine ⟨after, ?_, ?_, ?_⟩
    · rw [pulls]
    · rw [diagnostics, absorbed, ← Array.toList_inj]
      simp [reportsOf]
    · rw [lexemes, absorbed]
      simp only [keptEntries, LexemeTable.recordAll, List.foldl_append]
      rfl

end TokenSource

theorem LexemeTable.filter_recordAll {left right : List Entry}
    (apart : Entry.AreApart right) (sublist : left.Sublist right) (agree : Entry.Agree left right)
    (place : Position) :
    ((empty.recordAll left).get? place).filter (fun lexeme => lexeme.category != .comment) =
      (empty.recordAll (right.filter fun entry => entry.token != .comment)).get? place := by
  have own : ∀ {entry : Entry} {lexeme : Lexeme}, entry.lexeme? = some lexeme →
      (lexeme.category != .comment) = !entry.isComment := by
    intro entry lexeme recorded
    simp only [Entry.lexeme?, Option.map_eq_some_iff] at recorded
    obtain ⟨category, kind, rfl⟩ := recorded
    unfold Entry.isComment
    cases token : entry.token <;> rw [token] at kind <;> cases kind <;> rfl
  have same : right.filter (fun entry => entry.token != .comment) =
      right.filter (!·.isComment) := by
    apply List.filter_congr
    intro entry _
    exact congrArg (! ·) (beq_eq_decide entry.token .comment)
  have apartSame := apart.sublist (List.filter_sublist (p := (!·.isComment)))
  apply Option.ext
  intro lexeme
  rw [same, Option.filter_eq_some_iff, get?_recordAll_empty (apart.sublist sublist),
    get?_recordAll_empty apartSame, ← agree]
  constructor
  · rintro ⟨⟨entry, member, here, recorded⟩, shown⟩
    rw [own recorded] at shown
    exact ⟨entry, List.mem_filter.2 ⟨member, shown⟩, here, recorded⟩
  · rintro ⟨entry, member, here, recorded⟩
    obtain ⟨among, shown⟩ := List.mem_filter.1 member
    rw [← own recorded] at shown
    exact ⟨⟨entry, among, here, recorded⟩, shown⟩

/-- Calls up to the first end of input, each keeping comments or not, as far as they differ from calls
that drop all comments. -/
structure Context.Ignores (context : Context) (language : Language) (source : List Char)
    (settings : List Bool) (handed : List Lexed) (after : Context) : Prop where
  ends : ∃ inner final, handed = inner ++ [final] ∧ final.token = .endOfInput ∧
    ∀ item ∈ inner, item.token ≠ .endOfInput
  pulls : ∃ left, context.pullsWith settings (.ofText language source) = (handed, left, after)
  tokens : (handed.map Lexed.located).filter (fun found => found.1 != .comment) =
    ({ context with keepComments := false }.lex language source).1
  diagnostics : after.diagnostics =
    ({ context with keepComments := false }.lex language source).2.diagnostics
  lexemes : ∀ place,
    (after.lexemeAt place).filter (fun lexeme => lexeme.category != .comment) =
      ({ context with keepComments := false }.lex language source).2.lexemeAt place

section

variable {State : Type} {reader : Reader State} {wrap : State → TokenSource} {context : Context}
  {language : Language} {source : List Char} {state : State}

theorem TokenSource.Wraps.ignores (wraps : Wraps reader wrap)
    (starts : .ofText language source = wrap state)
    (items : ((TokenSource.ofText language source).stream context.file).items =
      reader.items context.file state)
    (own : ∀ item ∈ reader.items context.file state, item.RecordsOnlyComments)
    (fresh : context.lexemes = .empty) (flags : Nat → Bool) :
    ∃ count handed after,
      context.Ignores language source ((List.range count).map flags) handed after := by
  obtain ⟨count, inner, final, left, mixes⟩ := Reader.exists_mixes state flags own
  obtain ⟨after, pulls, diagnostics, lexemes⟩ :=
    wraps.pullsWith ((List.range count).map flags) context state
  obtain ⟨readings, accounts⟩ := exists_accounts language context.file source
  have apart := accounts.apart
  have plain := Context.absorbAll_eq { context with keepComments := false }
    ((TokenSource.ofText language source).stream context.file).items
  rw [← accounts.entries, items] at apart
  rw [mixes.calls] at pulls diagnostics lexemes
  refine ⟨count, inner ++ [final], after, ⟨inner, final, rfl, mixes.ends, mixes.others⟩,
    ⟨wrap left, by rw [starts, pulls]⟩, ?_, ?_, ?_⟩
  · rw [mixes.matching.shown, ← Reader.shown_false, ← items]
    rfl
  · rw [diagnostics, mixes.matching.reports, ← items]
    exact (congrArg Context.diagnostics plain).symm
  · intro place
    refine Eq.trans ?_ (congrArg (fun after => after.lexemes.get? place) plain).symm
    rw [Context.lexemeAt, lexemes, fresh, items]
    exact LexemeTable.filter_recordAll apart mixes.matching.recorded mixes.matching.agree place

end

/-- Which comments are kept makes no difference to anything else that reading a text into a fresh
context brings about. -/
theorem lexing_ignores_comments (context : Context) (language : Language) (source : List Char)
    (fresh : context.lexemes = .empty) (flags : Nat → Bool) :
    ∃ count handed after,
      context.Ignores language source ((List.range count).map flags) handed after := by
  cases language with
  | python =>
    have finishes := Python.finishes context.file
    refine python_wraps.ignores rfl rfl ?_ fresh flags
    exact Reader.mem_items
      (fun state kept => ⟨finishes.comments state kept, finishes.move state kept⟩) _ trivial
  | haskell =>
    have finishes := Haskell.finishes context.file
    have waits : (Haskell.Lexer.start source).Waits context.file := by
      simp [Haskell.Lexer.Waits, Haskell.Lexer.start]
    refine haskell_wraps.ignores rfl rfl ?_ fresh flags
    exact Reader.mem_items
      (fun state kept => ⟨finishes.comments state kept, finishes.move state kept⟩) _ waits

end Offside
