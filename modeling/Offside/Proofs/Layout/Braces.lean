import Mathlib.Data.List.Chain
import Offside.Proofs.Layout.Blocks
import Offside.TokenSource

/-!
The tokens of a text as they are written. All of them have a width but the end of input, which is the
last.
-/

namespace Offside.Haskell

set_option autoImplicit false

open Offside.Lexical

/-- The end of input is found only at the end. -/
theorem scan_inner (afterProper : Bool) {text : List Char} (remains : text ≠ []) :
    (scan afterProper text).token ≠ .endOfInput := by
  have scanned := scan_scanned afterProper text
  generalize scan afterProper text = found at scanned ⊢
  cases scanned with
  | ended => exact absurd rfl remains
  | delimiter rest spelled =>
    exact Token.forall_of_spelled? (· ≠ .endOfInput) (by decide) spelled
  | @number first rest =>
    rcases scanNumber_kind (first :: rest) with kind | kind <;> rw [kind] <;> decide
  | word => exact scanVariable_token (· ≠ .endOfInput) (by decide) (by decide) (by decide) _
  | operator => exact scanOperator_token (· ≠ .endOfInput) (by decide) (by decide) (by decide) _
  | blockComment | lineComment | string | character | properWord | qualifyingDot | unknown =>
    exact Token.noConfusion

namespace Written

def located (written : Written) : Token × Span := (written.token, written.span)

def AreWide (tokens : List Written) : Prop :=
  ∀ written ∈ tokens, written.span.isPoint = (written.token == .endOfInput)

theorem areWide_cons {written : Written} {later : List Written} :
    AreWide (written :: later) ↔
      written.span.isPoint = (written.token == .endOfInput) ∧ AreWide later :=
  List.forall_mem_cons

end Written

namespace Lexer

theorem nextScan_ended {lexer : Lexer} (ended : lexer.place.ahead = []) :
    lexer.nextScan = { token := .endOfInput, width := 0 } := by
  rw [nextScan, ended]
  rfl

theorem nextScan_inner {lexer : Lexer} (remains : lexer.place.ahead ≠ []) :
    lexer.nextScan.token ≠ .endOfInput :=
  scan_inner _ remains

theorem nextScan_moves {lexer : Lexer} (remains : lexer.place.ahead ≠ []) :
    lexer.place.position < (lexer.place.skip lexer.nextScan.width).position :=
  Cursor.position_lt_skip (scan_width_pos _ remains) remains

theorem nextWritten_wide (file : FileId) (lexer : Lexer) :
    (lexer.nextWritten file).span.isPoint = ((lexer.nextWritten file).token == .endOfInput) := by
  by_cases ended : lexer.place.ahead = []
  · simp [nextWritten, nextScan_ended ended, spanAhead, Span.isPoint, Cursor.skip]
  · have moves := Position.ne_of_lt (nextScan_moves ended)
    have inner := nextScan_inner ended
    simp [nextWritten, spanAhead, Span.isPoint, moves, inner]

theorem scanned_wide (file : FileId) (lexer : Lexer) : Written.AreWide (lexer.scanned file) := by
  fun_induction Lexer.scanned file lexer with
  | case1 lexer ended =>
    intro written member
    rw [List.mem_singleton.1 member]
    exact nextWritten_wide file lexer
  | case2 lexer inner shorter induction =>
    exact Written.areWide_cons.2 ⟨nextWritten_wide file lexer, induction⟩

end Lexer

/-!
The braces of a text with layout. The tokens that layout adds in front of a written token open and
close implicit blocks one by one, and a written brace opens or closes an explicit one; all that is
said here of the braces of a text follows from this by induction over its tokens. Braces added by
layout are told from written ones by their width.
-/

namespace Layout

/-- An implicit block is indented deeper than an implicit block just around it. -/
def IsDeeper : Block → Block → Prop
  | .implicit inner, .implicit outer => outer.column < inner.column
  | _, _ => True

/-- Added tokens lead from open blocks to others: a brace opens a block that is indented deeper than
the innermost, or an empty one, or closes the innermost implicit block, and a semicolon changes
nothing. -/
inductive Adds : List Block → List Token → List Block → Prop
  | done (blocks : List Block) : Adds blocks [] blocks
  | opening {blocks after : List Block} {added : List Token} (block : ImplicitBlock)
      (deeper : ∀ outer ∈ blocks.head?, IsDeeper (.implicit block) outer)
      (later : Adds (.implicit block :: blocks) added after) :
      Adds blocks (.openBrace :: added) after
  | empty {blocks after : List Block} {added : List Token} (later : Adds blocks added after) :
      Adds blocks (.openBrace :: .closeBrace :: added) after
  | closing {blocks after : List Block} {added : List Token} (block : ImplicitBlock)
      (later : Adds blocks added after) :
      Adds (.implicit block :: blocks) (.closeBrace :: added) after
  | separating {blocks after : List Block} {added : List Token} (later : Adds blocks added after) :
      Adds blocks (.semicolon :: added) after

namespace Adds

variable {blocks between after : List Block} {added further : List Token}

theorem trans (first : Adds blocks added between) (second : Adds between further after) :
    Adds blocks (added ++ further) after := by
  induction first with
  | done blocks => exact second
  | opening block deeper later induction => exact .opening block deeper (induction second)
  | empty later induction => exact .empty (induction second)
  | closing block later induction => exact .closing block (induction second)
  | separating later induction => exact .separating (induction second)

theorem split (closes : ImplicitBlock → Bool) (blocks : List Block) :
    Adds blocks (List.replicate (splitBlocks closes blocks).1 .closeBrace)
      (splitBlocks closes blocks).2 := by
  fun_induction splitBlocks closes blocks with
  | case1 block outer holds count kept split induction =>
    rw [split] at induction
    exact .closing block induction
  | case2 block outer stays => exact .done _
  | case3 blocks others => exact .done _

end Adds

theorem closeWhile_adds (closes : ImplicitBlock → Bool) (layout : Layout) :
    Adds layout.blocks (layout.closeWhile closes).1 (layout.closeWhile closes).2.blocks :=
  .split closes layout.blocks

theorem align_adds (written : Written) (layout : Layout) :
    Adds layout.blocks (layout.align written).1 (layout.align written).2.blocks := by
  have closed := closeWhile_adds (fun block => decide (written.column < block.column)) layout
  unfold align
  split
  · simp only
    split
    · exact closed.trans (.separating (.done _))
    · exact closed
  · exact .done _

def Fresh (layout : Layout) : Prop := layout.started = false → layout.blocks = []

theorem deeper_of_innermost {layout : Layout} {block : ImplicitBlock}
    (deeper : layout.innermostColumn.all (· < block.column) = true) :
    ∀ outer ∈ layout.blocks.head?, IsDeeper (.implicit block) outer := by
  unfold innermostColumn at deeper
  intro outer member
  cases outer with
  | explicit => trivial
  | implicit outer =>
    obtain ⟨rest, found⟩ := List.head?_eq_some_iff.1 member
    rw [found] at deeper
    simpa [IsDeeper] using deeper

theorem meet_adds (written : Written) {layout : Layout} (fresh : layout.Fresh) :
    Adds layout.blocks (layout.meet written).1 (layout.meet written).2.blocks := by
  unfold meet
  split
  · rename_i opens
    have none : layout.blocks = [] := by
      apply fresh
      simpa using (Bool.and_eq_true_iff.1 opens).1
    apply Adds.opening _ _ (.done _)
    simp [none]
  · split
    · exact align_adds written { layout with started := true }
    · simp only
      split
      · exact .done _
      · split
        · rename_i deeper
          apply Adds.opening _ _ (.done _)
          exact deeper_of_innermost deeper.2
        · exact .empty (align_adds written { layout with started := true, opener := none })

/-- What a written token does to the open blocks once layout has added its tokens. -/
def writtenBlocks (token : Token) (blocks : List Block) : List Block :=
  match token with
  | .openBrace => .explicit :: blocks
  | .closeBrace => dropExplicit blocks
  | _ => blocks

def IsExplicit (blocks : List Block) : Prop := ∀ block, blocks.head? ≠ some (.implicit block)

theorem splitBlocks_all (blocks : List Block) : IsExplicit (splitBlocks (fun _ => true) blocks).2 := by
  induction blocks with
  | nil => simp [IsExplicit, splitBlocks]
  | cons block outer induction =>
    cases block with
    | explicit => simp [IsExplicit, splitBlocks]
    | implicit block => exact induction

/-- The blocks that a written token finds open after the tokens added in front of it. The end of input
and a closing brace find no implicit block inside the explicit one they end. -/
structure Found (token : Token) (blocks : List Block) (added : List Token) (after : List Block)
    (between : List Block) : Prop where
  adds : Adds blocks added between
  after_eq : after = writtenBlocks token between
  final : token = .endOfInput → IsExplicit between
  closing : token = .closeBrace → .explicit ∈ between → IsExplicit between

theorem Found.of_unchanged {token : Token} {blocks after : List Block} {added : List Token}
    (adds : Adds blocks added after) (noFinal : token ≠ .endOfInput)
    (noOpening : token ≠ .openBrace) (noClosing : token ≠ .closeBrace) :
    Found token blocks added after after where
  adds := adds
  after_eq := by
    unfold writtenBlocks
    split
    · exact absurd rfl noOpening
    · exact absurd rfl noClosing
    · rfl
  final := fun final => absurd final noFinal
  closing := fun closing => absurd closing noClosing

theorem dropExplicit_of_none {blocks : List Block} (none : .explicit ∉ blocks) :
    dropExplicit blocks = blocks := by
  unfold dropExplicit
  split
  · exact absurd List.mem_cons_self none
  · rfl

theorem pass_found (token : Token) (layout : Layout) :
    ∃ between, Found token layout.blocks (layout.pass token).1 (layout.pass token).2.blocks
      between := by
  have bracket : Adds layout.blocks
      (if 0 < layout.depth then
        layout.closeWhile fun block => decide (layout.depth ≤ block.depth)
        else ([], layout)).1
      (if 0 < layout.depth then
        layout.closeWhile fun block => decide (layout.depth ≤ block.depth)
        else ([], layout)).2.blocks := by
    split
    · exact closeWhile_adds _ layout
    · exact .done _
  cases token with
  | kwIn =>
    refine ⟨_, .of_unchanged ?_ (by simp) (by simp) (by simp)⟩
    simp only [pass, closeFor, openFor]
    split
    · rename_i block outer found
      split
      · rw [found]
        exact .closing block (.done _)
      · exact .done _
    · exact .done _
  | closeParen | closeBracket | comma =>
    exact ⟨_, .of_unchanged bracket (by simp) (by simp) (by simp)⟩
  | endOfInput =>
    exact ⟨_, closeWhile_adds _ layout, rfl, fun _ => splitBlocks_all _, by simp⟩
  | openBrace => exact ⟨layout.blocks, .done _, rfl, by simp, by simp⟩
  | closeBrace =>
    by_cases written : Block.explicit ∈ layout.blocks
    · simp only [pass, closeFor, openFor, List.contains_iff_mem.2 written, if_true]
      exact ⟨_, closeWhile_adds _ layout, rfl, by simp, fun _ _ => splitBlocks_all _⟩
    · have none : layout.blocks.contains .explicit = false := by simpa using written
      simp only [pass, closeFor, openFor, none]
      exact ⟨layout.blocks, .done _, (dropExplicit_of_none written).symm, by simp,
        fun _ member => absurd member written⟩
  | _ => exact ⟨layout.blocks, .of_unchanged (.done _) (by simp) (by simp) (by simp)⟩

theorem step_found (written : Written) {layout : Layout} (fresh : layout.Fresh) :
    ∃ between, Found written.token layout.blocks (layout.step written).1
      (layout.step written).2.blocks between := by
  rw [step_eq_meet]
  obtain ⟨between, found⟩ := pass_found written.token (layout.meet written).2
  exact ⟨between, { found with adds := (meet_adds written fresh).trans found.adds }⟩

theorem closeFor_started (token : Token) (layout : Layout) :
    (layout.closeFor token).2.started = layout.started := by
  unfold closeFor
  split
  · split
    · split
      · rfl
      · rfl
    · rfl
  iterate 3
    · split
      · rfl
      · rfl
  · split
    · rfl
    · rfl
  · rfl
  · rfl

theorem openFor_started (token : Token) (layout : Layout) :
    (layout.openFor token).started = layout.started := by
  unfold openFor
  split
  all_goals rfl

theorem step_fresh (written : Written) (layout : Layout) : (layout.step written).2.Fresh := by
  have started : (layout.step written).2.started = true := by
    rw [step_eq_meet, pass, openFor_started, closeFor_started, meet_started]
  intro notStarted
  rw [started] at notStarted
  cases notStarted

/-- Implicit blocks that stand directly in one another are indented deeper and deeper. -/
def Deepens (blocks : List Block) : Prop := blocks.IsChain IsDeeper

theorem Adds.deepens {blocks after : List Block} {added : List Token}
    (adds : Adds blocks added after) (deepens : Deepens blocks) : Deepens after := by
  induction adds with
  | done blocks => exact deepens
  | opening block deeper later induction => exact induction (List.isChain_cons.2 ⟨deeper, deepens⟩)
  | empty later induction => exact induction deepens
  | closing block later induction => exact induction (List.isChain_cons.1 deepens).2
  | separating later induction => exact induction deepens

theorem writtenBlocks_deepens (token : Token) {blocks : List Block} (deepens : Deepens blocks) :
    Deepens (writtenBlocks token blocks) := by
  unfold writtenBlocks
  split
  · exact List.isChain_cons.2 ⟨fun _ _ => trivial, deepens⟩
  · unfold dropExplicit
    split
    · exact (List.isChain_cons.1 deepens).2
    · exact deepens
  · exact deepens

theorem step_deepens (written : Written) {layout : Layout} (fresh : layout.Fresh)
    (deepens : Deepens layout.blocks) : Deepens (layout.step written).2.blocks := by
  obtain ⟨between, found⟩ := step_found written fresh
  rw [found.after_eq]
  exact writtenBlocks_deepens _ (found.adds.deepens deepens)

end Layout

namespace Lexer

theorem release_layout (lexer : Lexer) (added : List Token) (item : Lexed) :
    (lexer.release added item).state.layout = lexer.layout := by
  unfold release
  split
  · rfl
  · rfl

theorem move_layout (file : FileId) (lexer : Lexer) :
    (lexer.move file).state.layout = lexer.layout ∨
      ∃ written, (lexer.move file).state.layout = (lexer.layout.step written).2 := by
  unfold move
  split
  · exact Or.inl rfl
  · by_cases comment : lexer.nextScan.token = .comment
    · left
      rw [read_of_comment comment, pastNext, if_pos comment]
      rfl
    · right
      exact ⟨lexer.nextWritten file, by rw [read_of_written comment, release_layout]⟩

end Lexer

/-- The open blocks of a lexer are indented deeper and deeper at all times. -/
theorem deepens_invariant (file : FileId) :
    Reader.Invariant reader file fun _ lexer =>
      lexer.layout.Fresh ∧ Layout.Deepens lexer.layout.blocks where
  move := by
    rintro handed lexer ⟨fresh, deepens⟩
    change (lexer.move file).state.layout.Fresh ∧
      Layout.Deepens (lexer.move file).state.layout.blocks
    obtain same | ⟨written, stepped⟩ := lexer.move_layout file
    · rw [same]
      exact ⟨fresh, deepens⟩
    · rw [stepped]
      exact ⟨Layout.step_fresh written _, Layout.step_deepens written fresh deepens⟩
  comment := fun _ _ _ kept => kept

namespace Layout

/-- The braces open after a token, innermost first, each by whether it has no width. None if a brace
closes one of the other kind or none at all. -/
def nest (kinds : List Bool) (found : Token × Span) : Option (List Bool) :=
  if found.1 = .openBrace then some (found.2.isPoint :: kinds)
  else if found.1 = .closeBrace then
    match kinds with
    | [] => none
    | kind :: outer => if kind = found.2.isPoint then some outer else none
  else some kinds

def unclosed (kinds : List Bool) (tokens : List (Token × Span)) : Option (List Bool) :=
  tokens.foldlM nest kinds

/-- Every brace is closed by one of its own kind, added by layout or written. -/
def WellNested (tokens : List (Token × Span)) : Prop := unclosed [] tokens = some []

instance (tokens : List (Token × Span)) : Decidable (WellNested tokens) :=
  inferInstanceAs (Decidable (_ = _))

theorem unclosed_cons (kinds : List Bool) (found : Token × Span) (later : List (Token × Span)) :
    unclosed kinds (found :: later) = (nest kinds found).bind fun left => unclosed left later :=
  List.foldlM_cons

theorem unclosed_append (kinds : List Bool) (first second : List (Token × Span)) :
    unclosed kinds (first ++ second) =
      (unclosed kinds first).bind fun left => unclosed left second :=
  List.foldlM_append

theorem nest_of_plain {found : Token × Span} (plain : isBrace found.1 = false)
    (kinds : List Bool) : nest kinds found = some kinds := by
  simp only [isBrace, Bool.or_eq_false_iff, decide_eq_false_iff_not] at plain
  simp [nest, plain.1, plain.2]

def countAdded (token : Token) (tokens : List (Token × Span)) : Nat :=
  tokens.countP fun found => found.1 == token && found.2.isPoint

theorem nest_count {kinds left : List Bool} {found : Token × Span}
    (nested : nest kinds found = some left) :
    [found.1].count .openBrace + kinds.length = [found.1].count .closeBrace + left.length := by
  obtain ⟨token, span⟩ := found
  unfold nest at nested
  split at nested
  · rename_i opening
    cases nested
    simp only at opening
    simp [opening]
    omega
  · split at nested
    · rename_i closing
      simp only at closing
      split at nested
      · cases nested
      · split at nested
        · cases nested
          simp [closing]
          omega
        · cases nested
    · rename_i noOpening noClosing
      cases nested
      simp only at noOpening noClosing
      simp [noOpening, noClosing]

theorem unclosed_count {kinds left : List Bool} {tokens : List (Token × Span)}
    (nested : unclosed kinds tokens = some left) :
    (tokens.map Prod.fst).count .openBrace + kinds.length =
      (tokens.map Prod.fst).count .closeBrace + left.length := by
  induction tokens generalizing kinds with
  | nil =>
    cases nested
    rfl
  | cons found later induction =>
    rw [unclosed_cons, Option.bind_eq_some_iff] at nested
    obtain ⟨between, first, others⟩ := nested
    have counted := nest_count first
    have rest := induction others
    rw [List.map_cons, ← List.singleton_append, List.count_append, List.count_append]
    omega

theorem countAdded_eq (token : Token) (tokens : List (Token × Span)) :
    countAdded token tokens =
      ((tokens.filter fun found => found.2.isPoint).map Prod.fst).count token := by
  rw [countAdded, List.count, List.countP_map, List.countP_filter]
  rfl

/-- A run that nests the added braces closes none before it is opened. -/
theorem countAdded_le {left : List Bool} {tokens front : List (Token × Span)}
    (nested : unclosed [] (tokens.filter fun found => found.2.isPoint) = some left)
    (first : front <+: tokens) :
    countAdded .closeBrace front ≤ countAdded .openBrace front := by
  obtain ⟨later, rfl⟩ := first
  rw [List.filter_append, unclosed_append, Option.bind_eq_some_iff] at nested
  obtain ⟨between, nested, -⟩ := nested
  have counted := unclosed_count nested
  rw [countAdded_eq, countAdded_eq]
  simp only [List.length_nil] at counted
  omega

def isImplicit : Block → Bool
  | .implicit _ => true
  | .explicit => false

def kinds (keeps : Block → Bool) (blocks : List Block) : List Bool :=
  (blocks.filter keeps).map isImplicit

theorem Adds.unclosed {keeps : Block → Bool} (all : ∀ block, keeps (.implicit block) = true)
    {blocks after : List Block} {added : List Token} (adds : Adds blocks added after)
    {place : Span} (point : place.isPoint = true) :
    Layout.unclosed (kinds keeps blocks) (added.map (·, place)) = some (kinds keeps after) := by
  have pushed : ∀ (block : ImplicitBlock) (blocks : List Block),
      kinds keeps (.implicit block :: blocks) = true :: kinds keeps blocks := by
    intro block blocks
    rw [kinds, List.filter_cons_of_pos (all block)]
    rfl
  have opened : ∀ kinds : List Bool, nest kinds (.openBrace, place) = some (true :: kinds) := by
    intro kinds
    simp [nest, point]
  have closed : ∀ kinds : List Bool, nest (true :: kinds) (.closeBrace, place) = some kinds := by
    intro kinds
    simp [nest, point]
  induction adds with
  | done blocks => rfl
  | opening block deeper later induction =>
    rw [List.map_cons, unclosed_cons, opened, Option.bind_some, ← pushed block]
    exact induction
  | empty later induction =>
    rw [List.map_cons, List.map_cons, unclosed_cons, opened, Option.bind_some, unclosed_cons,
      closed, Option.bind_some]
    exact induction
  | closing block later induction =>
    rw [List.map_cons, pushed, unclosed_cons, closed, Option.bind_some]
    exact induction
  | separating later induction =>
    rw [List.map_cons, unclosed_cons, nest_of_plain rfl, Option.bind_some]
    exact induction

theorem Adds.explicit {blocks after : List Block} {added : List Token}
    (adds : Adds blocks added after) :
    kinds (fun block => !isImplicit block) after =
      kinds (fun block => !isImplicit block) blocks := by
  induction adds with
  | done blocks => rfl
  | opening block deeper later induction => exact induction
  | empty later induction => exact induction
  | closing block later induction => exact induction
  | separating later induction => exact induction

end Layout

open Written

namespace Layout

theorem atStart_point (span : Span) : span.atStart.isPoint = true := Span.isPoint_point _ _

theorem spread_wide {tokens : List Written} (wide : AreWide tokens) (layout : Layout) :
    (layout.spread tokens).filter (fun found => !found.2.isPoint) =
      (tokens.map located).filter fun found => found.1 != .endOfInput := by
  induction tokens generalizing layout with
  | nil => rfl
  | cons written later induction =>
    rw [areWide_cons] at wide
    have itself : ∀ rest : List (Token × Span),
        (written.located :: rest).filter (fun found => !found.2.isPoint) =
          [written.located].filter (fun found => found.1 != .endOfInput) ++
            rest.filter fun found => !found.2.isPoint := by
      intro rest
      rw [← List.singleton_append, List.filter_append]
      apply congrArg (· ++ _)
      simp [List.filter_cons, located, wide.1]
    rw [List.map_cons, ← List.singleton_append (l := later.map located), List.filter_append]
    by_cases comment : written.token = .comment
    · rw [spread_of_comment comment]
      exact (itself _).trans (by rw [induction wide.2])
    · have added : ((layout.step written).1.map (·, written.span.atStart)).filter
          (fun found => !found.2.isPoint) = [] := by
        rw [List.filter_eq_nil_iff]
        intro found member
        obtain ⟨token, -, rfl⟩ := List.mem_map.1 member
        simp [atStart_point]
      rw [spread_of_written comment, List.filter_append, added, List.nil_append]
      exact (itself _).trans (by rw [induction wide.2])

/-- A token without a width is added by layout or the end of input. -/
theorem spread_points {tokens : List Written} (wide : AreWide tokens) (layout : Layout) :
    ∀ found ∈ layout.spread tokens, found.2.isPoint = true →
      isAdded found.1 = true ∨ found.1 = .endOfInput := by
  induction tokens generalizing layout with
  | nil => simp [spread]
  | cons written later induction =>
    rw [areWide_cons] at wide
    have itself : written.span.isPoint = true → written.token = .endOfInput := by
      intro point
      simpa [point] using wide.1.symm
    intro found member point
    by_cases comment : written.token = .comment
    · rw [spread_of_comment comment] at member
      rcases List.mem_cons.1 member with rfl | member
      · exact Or.inr (itself point)
      · exact induction wide.2 layout found member point
    · rw [spread_of_written comment, List.mem_append] at member
      rcases member with added | member
      · obtain ⟨token, fromStep, rfl⟩ := List.mem_map.1 added
        exact Or.inl (step_added written layout token fromStep)
      · rcases List.mem_cons.1 member with rfl | member
        · exact Or.inr (itself point)
        · exact induction wide.2 _ found member point

theorem kinds_implicit_written (token : Token) (blocks : List Block) :
    kinds isImplicit (writtenBlocks token blocks) = kinds isImplicit blocks := by
  unfold writtenBlocks
  split
  · rfl
  · unfold dropExplicit
    split
    · rfl
    · rfl
  · rfl

/-- The braces added by layout are nested among themselves, whatever braces are written. -/
theorem spread_added_nested {tokens : List Written} (wide : AreWide tokens) {layout : Layout}
    (fresh : layout.Fresh) :
    ∃ left, unclosed (kinds isImplicit layout.blocks)
      ((layout.spread tokens).filter fun found => found.2.isPoint) = some left := by
  induction tokens generalizing layout with
  | nil => exact ⟨_, rfl⟩
  | cons written later induction =>
    rw [areWide_cons] at wide
    -- The written token itself is passed over, or it is the end of input.
    have itself : ∀ (kinds : List Bool) (rest : List (Token × Span)),
        unclosed kinds ((written.located :: rest).filter fun found => found.2.isPoint) =
          unclosed kinds (rest.filter fun found => found.2.isPoint) := by
      intro kinds rest
      by_cases final : written.token = .endOfInput
      · rw [List.filter_cons_of_pos (by simp [located, wide.1, final]), unclosed_cons,
          nest_of_plain (by simp [located, final, isBrace]), Option.bind_some]
      · rw [List.filter_cons_of_neg (by simp [located, wide.1, final])]
    by_cases comment : written.token = .comment
    · obtain ⟨left, nested⟩ := induction wide.2 fresh
      refine ⟨left, ?_⟩
      rw [spread_of_comment comment]
      exact (itself _ _).trans nested
    · obtain ⟨between, found⟩ := step_found written fresh
      obtain ⟨left, nested⟩ := induction wide.2 (step_fresh written layout)
      have added : ((layout.step written).1.map (·, written.span.atStart)).filter
          (fun found => found.2.isPoint) =
          (layout.step written).1.map (·, written.span.atStart) := by
        rw [List.filter_eq_self]
        intro found member
        obtain ⟨token, -, rfl⟩ := List.mem_map.1 member
        exact atStart_point _
      refine ⟨left, ?_⟩
      rw [spread_of_written comment, List.filter_append, added, unclosed_append,
        found.adds.unclosed (fun _ => rfl) (atStart_point _), Option.bind_some]
      rw [found.after_eq, kinds_implicit_written] at nested
      exact (itself _ _).trans nested

def explicitKinds (blocks : List Block) : List Bool := kinds (fun block => !isImplicit block) blocks

def allKinds (blocks : List Block) : List Bool := kinds (fun _ => true) blocks

theorem nil_of_explicit {blocks : List Block} (explicit : IsExplicit blocks)
    (none : explicitKinds blocks = []) : blocks = [] := by
  cases blocks with
  | nil => rfl
  | cons block outer =>
    cases block with
    | implicit block => exact absurd rfl (explicit block)
    | explicit => cases none

theorem cons_of_explicit {blocks : List Block} (explicit : IsExplicit blocks)
    (some : explicitKinds blocks ≠ []) : ∃ outer, blocks = .explicit :: outer := by
  cases blocks with
  | nil => exact absurd rfl some
  | cons block outer =>
    cases block with
    | implicit block => exact absurd rfl (explicit block)
    | explicit => exact ⟨outer, rfl⟩

theorem explicit_mem_of_kinds {blocks : List Block} (some : explicitKinds blocks ≠ []) :
    Block.explicit ∈ blocks := by
  induction blocks with
  | nil => exact absurd rfl some
  | cons block outer induction =>
    cases block with
    | implicit block => exact List.mem_cons_of_mem _ (induction some)
    | explicit => exact List.mem_cons_self

/-- A written token that is in order among the explicit blocks is so among all of them. -/
theorem nest_written {written : Written} {blocks : List Block} {left : List Bool}
    (wide : written.span.isPoint = false)
    (closing : written.token = .closeBrace → .explicit ∈ blocks → IsExplicit blocks)
    (nested : nest (explicitKinds blocks) written.located = some left) :
    left = explicitKinds (writtenBlocks written.token blocks) ∧
      nest (allKinds blocks) written.located =
        some (allKinds (writtenBlocks written.token blocks)) := by
  obtain ⟨token, span, column, firstOnLine⟩ := written
  simp only at wide closing
  unfold nest located at nested
  simp only [wide] at nested
  split at nested
  · rename_i opening
    subst opening
    cases nested
    simp [nest, located, wide, writtenBlocks, explicitKinds, allKinds, kinds, isImplicit]
  · split at nested
    · rename_i isClosing
      subst isClosing
      have some : explicitKinds blocks ≠ [] := by
        intro none
        rw [none] at nested
        cases nested
      obtain ⟨outer, rfl⟩ := cons_of_explicit (closing rfl (explicit_mem_of_kinds some)) some
      simp only [explicitKinds, kinds, isImplicit, Bool.not_false, List.filter_cons_of_pos,
        List.map_cons, if_true] at nested
      cases nested
      exact ⟨rfl, by simp [nest, located, wide, writtenBlocks, allKinds, kinds, isImplicit,
        dropExplicit]⟩
    · rename_i noOpening noClosing
      cases nested
      have same : writtenBlocks token blocks = blocks := by
        unfold writtenBlocks
        split
        · exact absurd rfl noOpening
        · exact absurd rfl noClosing
        · rfl
      rw [same]
      exact ⟨rfl, by simp [nest, located, noOpening, noClosing]⟩

/-- Written braces that are balanced are nested with those that layout adds. -/
theorem spread_nested {inner : List Written} {final : Written} (wide : AreWide inner)
    (others : ∀ written ∈ inner, written.token ≠ .endOfInput)
    (ended : final.token = .endOfInput) {layout : Layout} (fresh : layout.Fresh)
    (balanced : unclosed (explicitKinds layout.blocks) (inner.map located) = some []) :
    unclosed (allKinds layout.blocks) (layout.spread (inner ++ [final])) = some [] := by
  induction inner generalizing layout with
  | nil =>
    obtain ⟨between, found⟩ := step_found final fresh
    have none : explicitKinds between = [] := by
      rw [explicitKinds, found.adds.explicit]
      exact Option.some.inj balanced
    have closed : between = [] := nil_of_explicit (found.final ended) none
    rw [List.nil_append, spread_of_written (by simp [ended]), unclosed_append, allKinds,
      found.adds.unclosed (fun _ => rfl) (atStart_point _), Option.bind_some, unclosed_cons,
      nest_of_plain (by simp [ended, isBrace]), Option.bind_some, closed]
    rfl
  | cons written later induction =>
    rw [areWide_cons] at wide
    rw [List.forall_mem_cons] at others
    rw [List.map_cons, unclosed_cons, Option.bind_eq_some_iff] at balanced
    obtain ⟨left, nested, balanced⟩ := balanced
    rw [List.cons_append]
    by_cases comment : written.token = .comment
    · have plain : isBrace written.token = false := by simp [comment, isBrace]
      rw [nest_of_plain plain] at nested
      cases nested
      rw [spread_of_comment comment, unclosed_cons, nest_of_plain plain, Option.bind_some]
      exact induction wide.2 others.2 fresh balanced
    · obtain ⟨between, found⟩ := step_found written fresh
      have notPoint : written.span.isPoint = false := by simp [wide.1, others.1]
      rw [explicitKinds, ← found.adds.explicit] at nested
      obtain ⟨rfl, all⟩ := nest_written notPoint found.closing nested
      rw [← found.after_eq] at all balanced
      rw [spread_of_written comment, unclosed_append, allKinds,
        found.adds.unclosed (fun _ => rfl) (atStart_point _), Option.bind_some, unclosed_cons]
      change (nest (allKinds between) written.located).bind _ = _
      rw [all, Option.bind_some]
      exact induction wide.2 others.2 (step_fresh written layout) balanced

end Layout

/-- The tokens of a text that are shown, with comments or without them. -/
def shownTokens (keepComments : Bool) (file : FileId) (source : List Char) : List Written :=
  (scannedTokens file source).filter fun written => keepComments || written.token != .comment

theorem shownTokens_wide (keepComments : Bool) (file : FileId) (source : List Char) :
    AreWide (shownTokens keepComments file source) :=
  fun written member => Lexer.scanned_wide file _ written (List.mem_of_mem_filter member)

theorem shownTokens_split (keepComments : Bool) (file : FileId) (source : List Char) :
    ∃ inner final, shownTokens keepComments file source = inner ++ [final] ∧
      final.token = .endOfInput ∧ ∀ written ∈ inner, written.token ≠ .endOfInput := by
  obtain ⟨inner, final, split, ended, others⟩ := Lexer.scanned_split file (Lexer.start source)
  refine ⟨inner.filter fun written => keepComments || written.token != .comment, final, ?_, ended,
    fun written member => others written (List.mem_of_mem_filter member)⟩
  rw [shownTokens, scannedTokens, split, List.filter_append,
    List.filter_cons_of_pos (by simp [ended])]
  rfl

theorem lex_eq_spread (context : Context) (source : List Char) :
    (context.lex .haskell source).1 =
      Layout.spread {} (shownTokens context.keepComments context.file source) := by
  have located : (context.lex .haskell source).1 =
      ((reader.stream context.file source).items.map Lexed.located).filter
        fun found => context.keepComments || found.1 != .comment := by
    rw [List.filter_map]
    rfl
  rw [located, stream_located]
  cases context.keepComments with
  | true => simp [shownTokens]
  | false => exact Layout.spread_withoutComments {} (scannedTokens context.file source)

open Layout

/-- The end of input is no brace, so all written braces stand before it. -/
theorem spread_shown_nested {keepComments : Bool} {file : FileId} {source : List Char}
    (balanced : WellNested ((shownTokens keepComments file source).map located)) :
    WellNested (spread {} (shownTokens keepComments file source)) := by
  have wide := shownTokens_wide keepComments file source
  have fresh : Layout.Fresh {} := fun _ => rfl
  obtain ⟨inner, final, split, ended, others⟩ := shownTokens_split keepComments file source
  have innerBalanced : unclosed [] (inner.map located) = some [] := by
    have plain : isBrace final.located.1 = false := by simp [located, ended, isBrace]
    rw [WellNested, split, List.map_append, unclosed_append, Option.bind_eq_some_iff] at balanced
    obtain ⟨left, nested, last⟩ := balanced
    rw [List.map_singleton, unclosed_cons, nest_of_plain plain] at last
    cases last
    exact nested
  rw [split] at wide ⊢
  exact spread_nested (fun token member => wide token (List.mem_append_left _ member)) others
    ended fresh innerBalanced

/-- The braces of every text. What has a width is written, and layout adds only braces and semicolons
without one; it never closes a block that it has not opened; implicit blocks that stand directly in
one another are indented deeper and deeper after any calls; and if the written braces of the text are
balanced, all of its braces are nested, each closed by one of its own kind. -/
theorem layout_keeps_braces (context : Context) (source : List Char) :
    let written := (shownTokens context.keepComments context.file source).map located
    let stream := (context.lex .haskell source).1
    stream.filter (fun found => !found.2.isPoint) =
        written.filter (fun found => found.1 != .endOfInput) ∧
      (∀ found ∈ stream, found.2.isPoint = true →
        isAdded found.1 = true ∨ found.1 = .endOfInput) ∧
      (∀ front, front <+: stream → countAdded .closeBrace front ≤ countAdded .openBrace front) ∧
      (∀ settings,
        (reader.calls context.file settings (Lexer.start source)).2.layout.blocks.IsChain
          IsDeeper) ∧
      (WellNested written → WellNested stream) := by
  intro written stream
  have wide := shownTokens_wide context.keepComments context.file source
  have fresh : Layout.Fresh {} := fun _ => rfl
  have spreads : stream = _ := lex_eq_spread context source
  refine ⟨?_, ?_, ?_, ?_, ?_⟩
  · rw [spreads]
    exact spread_wide wide {}
  · rw [spreads]
    exact spread_points wide {}
  · intro front first
    obtain ⟨left, nested⟩ := spread_added_nested wide fresh
    rw [spreads] at first
    exact countAdded_le nested first
  · intro settings
    have started : (Lexer.start source).layout.Fresh ∧ Deepens (Lexer.start source).layout.blocks :=
      ⟨fresh, List.IsChain.nil⟩
    have invariant := deepens_invariant context.file
    have kept := @Lexical.Reader.Invariant.calls _ reader _ _ invariant settings _ [] started
    exact kept.2
  · intro balanced
    rw [WellNested, spreads]
    exact spread_shown_nested balanced

/-- A written block in the added one of the text, and an added block inside it that its closing brace
ends. -/
def bracedText : List Char := "x = do \x7b case y of\n  z -> w \x7d where\n  v = u".toList

theorem layout_keeps_braced_text :
    WellNested ((shownTokens false .single bracedText).map located) ∧
      WellNested (({} : Context).lex .haskell bracedText).1 := by
  have balanced : WellNested ((shownTokens false .single bracedText).map located) := by
    decide +kernel
  obtain ⟨-, -, -, -, nested⟩ := layout_keeps_braces {} bracedText
  exact ⟨balanced, nested balanced⟩

end Offside.Haskell
