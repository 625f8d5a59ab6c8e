import Offside.Proofs.Layout.Braces
import Offside.Proofs.Parser.Texts

/-!
Where the tokens of a text stand. Written tokens and comments start one after another, no two at one
place. What is recorded when a token is read is recorded at a place behind all tokens handed out
before, so no text of theirs is replaced.
-/

namespace Offside

set_option autoImplicit false

open Offside.Lexical

namespace Lexical.Reader

variable {State : Type} {reader : Reader State} {file : FileId}

/-- A move from a state that has reached a place: what it records stands at that place or behind it,
and a token whose text is looked at lies before the place that is reached then. -/
structure MovesOn (place : State → Position) (start : Position) (move : Move State) : Prop where
  reached : start ≤ place move.state
  entries : ∀ item ∈ move.item, ∀ entry ∈ item.entries, start ≤ entry.place
  passed : ∀ item ∈ move.item, item.token.isLookedUp = true →
    item.span.start < place move.state

/-- By induction over the moves: no later entry stands where a token that is looked at does. -/
theorem settled_items {keeps : State → Prop} {place : State → Position}
    (step : ∀ state, keeps state → MovesOn place (place state) (reader.move file state) ∧
      keeps (reader.move file state).state)
    (state : State) (kept : keeps state) :
    TokenStream.Settled (reader.items file state) ∧
      ∀ item ∈ reader.items file state, ∀ entry ∈ item.entries, place state ≤ entry.place := by
  fun_induction Reader.items reader file state with
  | case1 state found lower induction =>
    obtain ⟨moved, keptNext⟩ := step state kept
    obtain ⟨settled, behind⟩ := induction keptNext
    exact ⟨settled, fun item member entry among =>
      Position.le_trans moved.reached (behind item member entry among)⟩
  | case2 state item found final =>
    obtain ⟨moved, _⟩ := step state kept
    refine ⟨List.pairwise_singleton _ _, ?_⟩
    intro other member
    rw [List.mem_singleton.1 member]
    exact moved.entries item found
  | case3 state item found goesOn lower induction =>
    obtain ⟨moved, keptNext⟩ := step state kept
    obtain ⟨settled, behind⟩ := induction keptNext
    constructor
    · refine List.pairwise_cons.2 ⟨?_, settled⟩
      intro later member lookedUp entry among same
      have before := Position.lt_of_lt_of_le (moved.passed item found lookedUp)
        (behind later member entry among)
      exact Position.ne_of_lt before same.symm
    · intro other member
      rcases List.mem_cons.1 member with rfl | member
      · exact moved.entries other found
      · intro entry among
        exact Position.le_trans moved.reached (behind other member entry among)

end Lexical.Reader

namespace Haskell

namespace Lexer

theorem position_le_place (lexer : Lexer) : lexer.cursor.position ≤ lexer.place.position :=
  Cursor.position_le_skip _ _

/-- Tokens that wait have no effects left, and a written one lies before the cursor. -/
def WaitsBehind (lexer : Lexer) : Prop :=
  ∀ item ∈ lexer.pending, item.entries = [] ∧
    (item.token.isLookedUp = true → item.span.start < lexer.cursor.position)

theorem lookedUp_of_added {token : Token} (added : Layout.isAdded token = true) :
    token.isLookedUp = false := by
  simp only [Layout.isAdded, Bool.or_eq_true, decide_eq_true_eq] at added
  rcases added with (rfl | rfl) | rfl
  · rfl
  · rfl
  · rfl

theorem cursor_pastNext (lexer : Lexer) :
    lexer.pastNext.cursor = lexer.place.skip lexer.nextScan.width := by
  unfold pastNext
  split
  · rfl
  · rfl

theorem position_lt_pastNext {lexer : Lexer} (inner : lexer.nextScan.token ≠ .endOfInput) :
    lexer.place.position < lexer.pastNext.cursor.position := by
  rw [cursor_pastNext]
  apply nextScan_moves
  intro ended
  exact inner (by rw [nextScan_ended ended])

theorem position_le_pastNext (lexer : Lexer) :
    lexer.cursor.position ≤ lexer.pastNext.cursor.position := by
  rw [cursor_pastNext]
  exact Position.le_trans lexer.position_le_place (Cursor.position_le_skip _ _)

theorem nextItem_passed {file : FileId} {lexer : Lexer}
    (lookedUp : (lexer.nextItem file).token.isLookedUp = true) :
    (lexer.nextItem file).span.start < lexer.pastNext.cursor.position := by
  apply position_lt_pastNext
  intro ended
  have final : (lexer.nextItem file).token = .endOfInput := ended
  rw [final] at lookedUp
  cases lookedUp

theorem nextItem_entries (file : FileId) (lexer : Lexer) :
    ∀ entry ∈ (lexer.nextItem file).entries, lexer.cursor.position ≤ entry.place := by
  intro entry member
  rw [List.mem_singleton.1 member]
  exact lexer.position_le_place

theorem release_movesOn {start : Position} {lexer : Lexer} {added : List Token} {item : Lexed}
    (idle : lexer.pending = []) (known : Layout.AreAdded added)
    (reached : start ≤ lexer.cursor.position)
    (entries : ∀ entry ∈ item.entries, start ≤ entry.place)
    (passed : item.token.isLookedUp = true → item.span.start < lexer.cursor.position) :
    Reader.MovesOn (fun lexer => lexer.cursor.position) start (lexer.release added item) ∧
      (lexer.release added item).state.WaitsBehind := by
  have others : ∀ token ∈ added, token.isLookedUp = true → item.span.start <
      lexer.cursor.position := by
    intro token member lookedUp
    rw [lookedUp_of_added (known token member)] at lookedUp
    cases lookedUp
  unfold release
  cases added with
  | nil =>
    constructor
    · exact
        { reached
          entries := fun other member => by
            cases member
            exact entries
          passed := fun other member => by
            cases member
            exact passed }
    · simp [WaitsBehind, Move.emit, idle]
  | cons first later =>
    rw [List.forall_mem_cons] at others
    constructor
    · exact
        { reached
          entries := fun other member => by
            cases member
            exact entries
          passed := fun other member => by
            cases member
            exact others.1 }
    · intro waiting member
      rcases List.mem_append.1 member with fresh | final
      · obtain ⟨token, among, rfl⟩ := List.mem_map.1 fresh
        exact ⟨rfl, others.2 token among⟩
      · rw [List.mem_singleton.1 final]
        exact ⟨rfl, passed⟩

theorem move_movesOn {file : FileId} {lexer : Lexer} (waits : lexer.WaitsBehind) :
    Reader.MovesOn (fun lexer => lexer.cursor.position) lexer.cursor.position (lexer.move file) ∧
      (lexer.move file).state.WaitsBehind := by
  unfold move
  cases found : lexer.pending with
  | cons first later =>
    rw [WaitsBehind, found, List.forall_mem_cons] at waits
    constructor
    · exact
        { reached := Position.le_refl _
          entries := fun item member => by
            cases member
            simp [waits.1.1]
          passed := fun item member => by
            cases member
            exact waits.1.2 }
    · exact waits.2
  | nil =>
    have idle : lexer.pastNext.pending = [] := (pending_pastNext lexer).trans found
    by_cases comment : lexer.nextScan.token = .comment
    · simp only [read_of_comment comment]
      constructor
      · exact
          { reached := lexer.position_le_pastNext
            entries := fun item member => by
              cases member
              exact lexer.nextItem_entries file
            passed := fun item member => by
              cases member
              exact nextItem_passed }
      · simp [WaitsBehind, Move.emit, idle]
    · simp only [read_of_written comment]
      exact release_movesOn idle (Layout.step_added _ _) lexer.position_le_pastNext
        (lexer.nextItem_entries file) nextItem_passed

theorem position_le_scanned (file : FileId) (lexer : Lexer) :
    ∀ written ∈ lexer.scanned file, lexer.cursor.position ≤ written.span.start := by
  fun_induction Lexer.scanned file lexer with
  | case1 lexer ended =>
    intro written member
    rw [List.mem_singleton.1 member]
    exact lexer.position_le_place
  | case2 lexer inner shorter induction =>
    refine List.forall_mem_cons.2 ⟨lexer.position_le_place, ?_⟩
    intro written member
    exact Position.le_trans lexer.position_le_pastNext (induction written member)

theorem scanned_increasing (file : FileId) (lexer : Lexer) :
    (lexer.scanned file).Pairwise fun earlier later => earlier.span.start < later.span.start := by
  fun_induction Lexer.scanned file lexer with
  | case1 lexer ended => exact List.pairwise_singleton _ _
  | case2 lexer inner shorter induction =>
    refine List.pairwise_cons.2 ⟨?_, induction⟩
    intro written member
    exact Position.lt_of_lt_of_le (position_lt_pastNext inner)
      (position_le_scanned file lexer.pastNext written member)

end Lexer

theorem stream_settled (file : FileId) (source : List Char) :
    TokenStream.Settled (reader.stream file source).items := by
  have started : (Lexer.start source).WaitsBehind := by simp [Lexer.WaitsBehind, Lexer.start]
  have step : ∀ lexer : Lexer, lexer.WaitsBehind →
      Reader.MovesOn (fun lexer => lexer.cursor.position) lexer.cursor.position
          (reader.move file lexer) ∧
        (reader.move file lexer).state.WaitsBehind := fun lexer waits => Lexer.move_movesOn waits
  exact (Reader.settled_items step _ started).1

def isFirm (token : Token) : Bool := !Layout.isAdded token && token != .endOfInput

theorem writtenTokens_sublist (file : FileId) (source : List Char) :
    (writtenTokens file source).Sublist (scannedTokens file source) := by
  rw [writtenTokens, Lexer.written_eq_filter]
  exact List.filter_sublist

theorem writtenTokens_wide (file : FileId) (source : List Char) :
    Written.AreWide (writtenTokens file source) :=
  fun written member => Lexer.scanned_wide file _ written
    ((writtenTokens_sublist file source).subset member)

/-- No two firm tokens start at one place, and they start in their order. -/
theorem visible_increasing (file : FileId) (source : List Char) :
    (reader.stream file source).visible.Pairwise fun earlier later =>
      isFirm earlier.1 = true → isFirm later.1 = true → earlier.2.start < later.2.start := by
  have sublist := writtenTokens_sublist file source
  have wide := writtenTokens_wide file source
  have increasing : (((writtenTokens file source).map Written.located).filter
      fun found => found.1 != .endOfInput).Pairwise
        fun earlier later => earlier.2.start < later.2.start := by
    apply List.Pairwise.filter
    apply List.Pairwise.map
    · exact fun _ _ before => before
    · exact (Lexer.scanned_increasing file (Lexer.start source)).sublist sublist
  rw [← Layout.spread_wide wide {}, List.pairwise_filter, ← stream_visible] at increasing
  apply increasing.imp_of_mem
  intro earlier later memberEarlier memberLater before firmEarlier firmLater
  have widths : ∀ found ∈ (reader.stream file source).visible, isFirm found.1 = true →
      (!found.2.isPoint) = true := by
    intro found member firm
    rw [stream_visible] at member
    simp only [isFirm, Bool.and_eq_true, Bool.not_eq_true', bne_iff_ne] at firm
    rw [Bool.not_eq_true', ← Bool.not_eq_true]
    intro point
    rcases Layout.spread_points wide {} found member point with added | ended
    · rw [added] at firm
      cases firm.1
    · exact firm.2 ended
  exact before (widths earlier memberEarlier firmEarlier) (widths later memberLater firmLater)

end Haskell

/-!
What reading the tokens of a text brings about. Layout decides which of the tokens handed out carries
the effects of reading a written one, but neither what these effects are nor their order.
-/

namespace Haskell

def handed (added : List Token) (item : Lexed) : List Lexed :=
  match added.map fun token => Lexed.silent token item.span.atStart with
  | [] => [item]
  | first :: later =>
    { first with reports := item.reports, entries := item.entries } ::
      (later ++ [.silent item.token item.span])

theorem entriesOf_handed (added : List Token) (item : Lexed) :
    entriesOf (handed added item) = item.entries := by
  cases added with
  | nil => simp [handed, entriesOf]
  | cons first later => simp [handed, entriesOf, Lexed.silent]

theorem reportsOf_handed (added : List Token) (item : Lexed) :
    reportsOf (handed added item) = item.reports := by
  cases added with
  | nil => simp [handed, reportsOf]
  | cons first later => simp [handed, reportsOf, Lexed.silent]

namespace Lexer

theorem items_pending (file : FileId) (lexer : Lexer) (added : List Token) (item : Lexed)
    (place : Span) (known : Layout.AreAdded added) :
    reader.items file { lexer with pending := added.map (Lexed.silent · place) ++ [item] } =
      added.map (Lexed.silent · place) ++ item ::
        if item.isFinal then [] else reader.items file { lexer with pending := [] } := by
  induction added with
  | nil =>
    have moved : reader.move file { lexer with pending := [item] } =
        .emit item { lexer with pending := [] } := rfl
    cases final : item.isFinal with
    | true => exact Reader.items_of_final moved final
    | false => exact Reader.items_of_emit moved final
  | cons token added induction =>
    rw [Layout.areAdded_cons] at known
    have moved : reader.move file
        { lexer with pending := (token :: added).map (Lexed.silent · place) ++ [item] } =
        .emit (.silent token place)
          { lexer with pending := added.map (Lexed.silent · place) ++ [item] } := rfl
    have inner : (Lexed.silent token place).isFinal = false :=
      decide_eq_false (Layout.added_ne_endOfInput known.1)
    rw [Reader.items_of_emit moved inner, induction known.2]
    rfl

theorem items_release {file : FileId} {state lexer : Lexer} {added : List Token} {item : Lexed}
    (moved : reader.move file state = release lexer added item) (idle : lexer.pending = [])
    (known : Layout.AreAdded added) :
    reader.items file state =
      handed added item ++ if item.isFinal then [] else reader.items file lexer := by
  cases added with
  | nil =>
    cases final : item.isFinal with
    | true => exact Reader.items_of_final moved final
    | false => exact Reader.items_of_emit moved final
  | cons first later =>
    rw [Layout.areAdded_cons] at known
    have same : ({ lexer with pending := [] } : Lexer) = lexer := by rw [← idle]
    have waiting := items_pending file lexer later (.silent item.token item.span)
      item.span.atStart known.2
    have inner : (Lexed.silent first item.span.atStart).isFinal = false :=
      decide_eq_false (Layout.added_ne_endOfInput known.1)
    rw [same] at waiting
    rw [Reader.items_of_emit moved inner]
    refine (congrArg (_ :: ·) waiting).trans ?_
    simp only [handed, List.map_cons, List.cons_append, List.append_assoc, List.nil_append]
    rfl

/-- The tokens of the text ahead, each with what reading it has to say, comments included. -/
def readings (file : FileId) (lexer : Lexer) : List Lexed :=
  if ended : lexer.nextScan.token = .endOfInput then [lexer.nextItem file]
  else
    have := pastNext_shorter ended
    lexer.nextItem file :: lexer.pastNext.readings file
termination_by lexer.cursor.ahead.length

theorem located_readings (file : FileId) (lexer : Lexer) :
    (lexer.readings file).map Lexed.located = (lexer.scanned file).map Written.located := by
  fun_induction Lexer.readings file lexer with
  | case1 lexer ended =>
    rw [scanned, dif_pos ended]
    rfl
  | case2 lexer inner shorter induction =>
    rw [scanned, dif_neg inner, List.map_cons, List.map_cons, induction]
    rfl

structure Follows {α : Type} (view : List Lexed → List α) : Prop where
  append : ∀ first second, view (first ++ second) = view first ++ view second
  handed : ∀ added item, view (handed added item) = view [item]

theorem follows_entriesOf : Follows entriesOf where
  append := fun _ _ => List.flatMap_append
  handed := fun added item => (entriesOf_handed added item).trans (by simp [entriesOf])

theorem follows_reportsOf : Follows reportsOf where
  append := fun _ _ => List.flatMap_append
  handed := fun added item => (reportsOf_handed added item).trans (by simp [reportsOf])

/-- Whatever layout does, the effects of what is handed out are those of the readings. -/
theorem Follows.items {α : Type} {view : List Lexed → List α} (follows : Follows view)
    (file : FileId) (lexer : Lexer) (layout : Layout) (idle : lexer.pending = []) :
    view (reader.items file { lexer with layout }) = view (lexer.readings file) := by
  fun_induction Lexer.readings file lexer generalizing layout with
  | case1 lexer ended =>
    have other : ({ lexer with layout } : Lexer).nextScan.token ≠ .comment := by
      change lexer.nextScan.token ≠ _
      simp [ended]
    have idleWith : ({ lexer with layout } : Lexer).pending = [] := idle
    have moved := (move_of_idle file idleWith).trans (read_of_written other)
    have idlePast : ({ lexer with layout } : Lexer).pastNext.pending = [] :=
      (pending_pastNext _).trans idle
    have final : (({ lexer with layout } : Lexer).nextItem file).isFinal = true :=
      decide_eq_true ended
    rw [items_release moved idlePast (Layout.step_added _ _), final, if_pos rfl,
      List.append_nil, follows.handed]
    rfl
  | case2 lexer inner shorter induction =>
    have idleWith : ({ lexer with layout } : Lexer).pending = [] := idle
    have idlePast : ({ lexer with layout } : Lexer).pastNext.pending = [] :=
      (pending_pastNext _).trans idle
    have goesOn : (({ lexer with layout } : Lexer).nextItem file).isFinal = false :=
      decide_eq_false inner
    have split : ∀ rest, view (lexer.nextItem file :: rest) =
        view [lexer.nextItem file] ++ view rest := fun rest => follows.append [_] rest
    rw [split]
    by_cases comment : ({ lexer with layout } : Lexer).nextScan.token = .comment
    · have moved := (move_of_idle file idleWith).trans (read_of_comment comment)
      rw [Reader.items_of_emit moved goesOn, pastNext_withLayout]
      change view (lexer.nextItem file :: _) = _
      rw [split, induction layout ((pending_pastNext lexer).trans idle)]
    · have moved := (move_of_idle file idleWith).trans (read_of_written comment)
      rw [items_release moved idlePast (Layout.step_added _ _), goesOn, follows.append,
        follows.handed, if_neg (by simp), pastNext_withLayout]
      exact congrArg _ (induction _ ((pending_pastNext lexer).trans idle))

end Lexer

def sourceReadings (file : FileId) (source : List Char) : List Lexed :=
  (Lexer.start source).readings file

theorem stream_entries (file : FileId) (source : List Char) :
    entriesOf (reader.stream file source).items = entriesOf (sourceReadings file source) :=
  Lexer.follows_entriesOf.items file (Lexer.start source) {} rfl

theorem stream_reports (file : FileId) (source : List Char) :
    reportsOf (reader.stream file source).items = reportsOf (sourceReadings file source) :=
  Lexer.follows_reportsOf.items file (Lexer.start source) {} rfl

end Haskell

end Offside
