import Offside.Proofs.Layout.Ahead
import Offside.Proofs.Lexical.Finish
import Offside.Proofs.Lexical.Spellings

/-!
Layout written out. Where the braces and semicolons of layout are written into a text, each on a line of
its own, the text holds the same tokens and layout adds none to them: every block is then an explicit
one, which no line and no bracket closes.
-/

namespace Offside

set_option autoImplicit false

open Offside.Lexical

namespace Haskell

variable {file : FileId} {layout : Layout} {lexer : Lexer}

namespace Layout

/-- All blocks are delimited by written braces. -/
def AllExplicit (blocks : List Block) : Prop := ∀ block ∈ blocks, block = .explicit

theorem AllExplicit.isExplicit {blocks : List Block} (explicit : AllExplicit blocks) :
    IsExplicit blocks := by
  intro block found
  have same := explicit _ (List.mem_of_mem_head? found)
  cases same

theorem AllExplicit.drop {blocks : List Block} (explicit : AllExplicit blocks) :
    AllExplicit (dropExplicit blocks) := by
  unfold dropExplicit
  split
  · exact (List.forall_mem_cons.1 explicit).2
  · exact explicit

def announced : Token → Option Token
  | .kwWhere => some .kwWhere
  | .kwLet => some .kwLet
  | .kwDo => some .kwDo
  | .kwOf => some .kwOf
  | _ => none

theorem closeWhile_explicit (explicit : AllExplicit layout.blocks) (closes : ImplicitBlock → Bool) :
    layout.closeWhile closes = ([], layout) := by
  simp [closeWhile, splitBlocks_of_explicit explicit.isExplicit]

theorem closeFor_explicit (explicit : AllExplicit layout.blocks) (token : Token) :
    (layout.closeFor token).1 = [] ∧ AllExplicit (layout.closeFor token).2.blocks := by
  have same : ([] : List Token) = [] ∧ AllExplicit layout.blocks := ⟨rfl, explicit⟩
  unfold closeFor
  split
  · split
    · rename_i block outer found
      exact absurd (congrArg List.head? found) (explicit.isExplicit block)
    · exact same
  iterate 3
    · split
      · rw [closeWhile_explicit explicit]
        exact same
      · exact same
  · split
    · rw [closeWhile_explicit explicit]
      exact ⟨rfl, explicit.drop⟩
    · exact same
  · rw [closeWhile_explicit explicit]
    exact same
  · exact same

theorem pass_explicit (explicit : AllExplicit layout.blocks) (token : Token) :
    (layout.pass token).1 = [] ∧ AllExplicit (layout.pass token).2.blocks := by
  obtain ⟨none, closed⟩ := closeFor_explicit explicit token
  refine ⟨none, ?_⟩
  by_cases opening : token = .openBrace
  · subst opening
    exact List.forall_mem_cons.2 ⟨rfl, closed⟩
  · simp only [pass, blocks_openFor opening]
    exact closed

theorem align_explicit (explicit : AllExplicit layout.blocks) (written : Written) :
    layout.align written = ([], layout) := by
  have outer : layout.innermostColumn = none := by
    unfold innermostColumn
    split
    · rename_i block rest found
      exact absurd (congrArg List.head? found) (explicit.isExplicit block)
    · rfl
  unfold align
  split
  · rw [closeWhile_explicit explicit]
    simp [outer]
  · rfl

/-- A token that may come next where layout shall have nothing to add: the first of a text opens no
block, and a block that is due is written out. -/
structure Allows (layout : Layout) (token : Token) : Prop where
  begun : layout.started = true ∨ opensText token = false
  due : layout.opener = none ∨ token = .openBrace

theorem meet_explicit (explicit : AllExplicit layout.blocks) {written : Written}
    (allows : layout.Allows written.token) :
    layout.meet written = ([], { layout with started := true, opener := none }) := by
  have begun : ¬(!layout.started && opensText written.token) = true := by
    rcases allows.begun with started | other
    · simp [started]
    · simp [other]
  unfold meet
  rw [if_neg begun]
  cases found : layout.opener with
  | none =>
    have aligned : ({ layout with started := true } : Layout).align written =
        ([], { layout with started := true }) :=
      @align_explicit { layout with started := true } explicit written
    simp only [aligned, ← found]
  | some opener =>
    have brace : written.token = .openBrace := by
      rcases allows.due with none | brace
      · rw [found] at none
        cases none
      · exact brace
    simp [brace]

theorem closeFor_opener (token : Token) (layout : Layout) :
    (layout.closeFor token).2.opener = layout.opener := by
  unfold closeFor
  split
  · split
    · split
      · rfl
      · rfl
    · rfl
  iterate 3
    · split
      · rfl
      · rfl
  · split
    · rfl
    · rfl
  · rfl
  · rfl

theorem opener_pass (token : Token) (idle : layout.opener = none) :
    (layout.pass token).2.opener = announced token := by
  have closed := (closeFor_opener token layout).trans idle
  cases token with
  | kwWhere | kwLet | kwDo | kwOf => rfl
  | _ => exact closed

def Idle (layout : Layout) : Prop := layout.started = false → layout.opener = none

theorem opener_meet (written : Written) (idle : layout.Idle) :
    (layout.meet written).2.opener = none := by
  unfold meet
  split
  · rename_i first
    apply idle
    simpa using (Bool.and_eq_true_iff.1 first).1
  · split
    · rename_i none
      rw [align_layout]
      exact none
    · simp only
      split
      · rfl
      · split
        · rfl
        · rw [align_layout]

theorem step_opener (written : Written) (idle : layout.Idle) :
    (layout.step written).2.opener = announced written.token := by
  rw [step_eq_meet]
  exact opener_pass written.token (opener_meet written idle)

theorem step_started (written : Written) (layout : Layout) :
    (layout.step written).2.started = true := by
  rw [step_eq_meet, pass, openFor_started, closeFor_started, meet_started]

/-- Layout has nothing to add where all blocks are explicit. -/
theorem step_explicit (explicit : AllExplicit layout.blocks) {written : Written}
    (allows : layout.Allows written.token) :
    (layout.step written).1 = [] ∧ AllExplicit (layout.step written).2.blocks := by
  obtain ⟨none, passed⟩ :=
    @pass_explicit { layout with started := true, opener := none } explicit written.token
  rw [step_eq_meet, meet_explicit explicit allows]
  exact ⟨none, passed⟩

/-- What follows a token where all blocks are explicit depends on that token alone. -/
theorem step_explicit_opener (explicit : AllExplicit layout.blocks) {written : Written}
    (allows : layout.Allows written.token) :
    (layout.step written).2.opener = announced written.token := by
  rw [step_eq_meet, meet_explicit explicit allows]
  exact opener_pass written.token rfl

/-- What comes next of a text in which layout has been written out is allowed. -/
theorem step_allows (written : Written) (fresh : layout.Fresh) :
    ∃ first rest, (layout.step written).1 ++ [written.token] = first :: rest ∧
      layout.Allows first := by
  have brace : layout.Allows .openBrace := ⟨Or.inr rfl, Or.inr rfl⟩
  by_cases first : (!layout.started && opensText written.token) = true
  · rw [step_eq_meet, meet, if_pos first]
    exact ⟨.openBrace, _, rfl, brace⟩
  · cases due : layout.opener with
    | some opener =>
      rw [step_eq_meet, meet, if_neg first, due]
      simp only
      split
      · rename_i written'
        refine ⟨.openBrace, [], ?_, brace⟩
        rw [written']
        rfl
      · split
        · exact ⟨.openBrace, _, rfl, brace⟩
        · exact ⟨.openBrace, _, rfl, brace⟩
    | none =>
      by_cases started : layout.started = true
      · obtain ⟨next, rest, found⟩ := List.exists_cons_of_ne_nil
          (List.append_ne_nil_of_right_ne_nil (layout.step written).1
            (List.cons_ne_nil written.token []))
        exact ⟨next, rest, found, Or.inl started, Or.inl due⟩
      · have allows : layout.Allows written.token := by
          refine ⟨Or.inr ?_, Or.inl due⟩
          simpa [started] using first
        have none : AllExplicit layout.blocks := by
          rw [fresh (by simpa using started)]
          simp [AllExplicit]
        rw [(step_explicit none allows).1]
        exact ⟨written.token, [], rfl, allows⟩

end Layout

namespace Lexer

/-- What layout adds in front of a token, each brace or semicolon on a line of its own. -/
def inserted (added : List Token) : List Char :=
  added.flatMap fun token => '\n' :: (token.display.toList ++ ['\n'])

def spelled (token : Token) : Token × List Char := (token, token.display.toList)

/-- The text ahead with layout written out. -/
def bracedText (file : FileId) (layout : Layout) (lexer : Lexer) : List Char :=
  let step := layout.step (lexer.nextWritten file)
  if ended : lexer.nextScan.token = .endOfInput then lexer.gap ++ inserted step.1
  else
    have := pastNext_shorter ended
    if lexer.nextScan.token = .comment then
      lexer.gap ++ (lexer.nextText ++ lexer.pastNext.bracedText file layout)
    else
      lexer.gap ++
        (inserted step.1 ++ (lexer.nextText ++ lexer.pastNext.bracedText file step.2))
termination_by lexer.cursor.ahead.length

def texts (lexer : Lexer) : List (Token × List Char) :=
  if ended : lexer.nextScan.token = .endOfInput then [(.endOfInput, [])]
  else
    have := pastNext_shorter ended
    (lexer.nextScan.token, lexer.nextText) :: lexer.pastNext.texts
termination_by lexer.cursor.ahead.length

def bracedTexts (file : FileId) (layout : Layout) (lexer : Lexer) : List (Token × List Char) :=
  let step := layout.step (lexer.nextWritten file)
  if ended : lexer.nextScan.token = .endOfInput then step.1.map spelled ++ [(.endOfInput, [])]
  else
    have := pastNext_shorter ended
    if lexer.nextScan.token = .comment then
      (.comment, lexer.nextText) :: lexer.pastNext.bracedTexts file layout
    else
      step.1.map spelled ++
        (lexer.nextScan.token, lexer.nextText) :: lexer.pastNext.bracedTexts file step.2
termination_by lexer.cursor.ahead.length

/-- A text goes on as before up to the first token that layout adds. -/
theorem cuts_bracedText (file : FileId) (layout : Layout) (lexer : Lexer) :
    Cuts lexer.cursor.ahead (lexer.bracedText file layout) := by
  have insertion : ∀ {before after : List Char} (added : List Token), Cuts before after →
      Cuts before (inserted added ++ after) := by
    intro before after added cuts
    cases added with
    | nil => exact cuts
    | cons token later => exact .cut _ _
  fun_induction bracedText file layout lexer with
  | case1 layout lexer step ended =>
    have none : lexer.place.ahead = [] := by
      by_contra remains
      exact nextScan_inner remains ended
    have whole := lexer.gap_append
    have cuts := (insertion step.1 .nil).append lexer.gap
    rw [none] at whole
    rw [whole, List.append_nil] at cuts
    exact cuts
  | case2 layout lexer inner shorter comment induction =>
    have cuts := (induction.append lexer.nextText).append lexer.gap
    rw [nextText_append, gap_append] at cuts
    exact cuts
  | case3 layout lexer step inner shorter other induction =>
    have cuts := (insertion step.1 (induction.append lexer.nextText)).append lexer.gap
    rw [nextText_append, gap_append] at cuts
    exact cuts

/-- The text ahead holds some tokens, layout has nothing to add to them and nothing is wrong with
them. -/
structure Yields (file : FileId) (layout : Layout) (lexer : Lexer)
    (texts : List (Token × List Char)) : Prop where
  texts : lexer.texts = texts
  silent : layout.spread (lexer.scanned file) = (lexer.scanned file).map Written.located
  sound : reportsOf (lexer.readings file) = []

theorem reports_nextItem (sound : lexer.nextScan.defect = none) (file : FileId) :
    (lexer.nextItem file).reports = [] := by
  simp [nextItem, Scan.lexed, sound]

theorem defect_of_reports (sound : (lexer.nextItem file).reports = []) :
    lexer.nextScan.defect = none := by
  simpa [nextItem, Scan.lexed] using sound

theorem yields_ended (ended : lexer.nextScan.token = .endOfInput)
    (sound : lexer.nextScan.defect = none) (silent : (layout.step (lexer.nextWritten file)).1 = []) :
    lexer.Yields file layout [(.endOfInput, [])] where
  texts := by rw [texts, dif_pos ended]
  silent := by
    have other : (lexer.nextWritten file).token ≠ .comment := by simp [nextWritten, ended]
    rw [scanned, dif_pos ended, Layout.spread_of_written other, silent]
    rfl
  sound := by
    rw [readings, dif_pos ended]
    simp [reportsOf, reports_nextItem sound]

theorem yields_comment {rest : List (Token × List Char)} (comment : lexer.nextScan.token = .comment)
    (sound : lexer.nextScan.defect = none) (later : lexer.pastNext.Yields file layout rest) :
    lexer.Yields file layout ((.comment, lexer.nextText) :: rest) := by
  have inner : lexer.nextScan.token ≠ .endOfInput := by simp [comment]
  refine ⟨?_, ?_, ?_⟩
  · rw [texts, dif_neg inner, later.texts, comment]
  · rw [scanned, dif_neg inner, Layout.spread_of_comment comment, later.silent]
    rfl
  · rw [readings, dif_neg inner, reportsOf, List.flatMap_cons, reports_nextItem sound]
    exact later.sound

theorem yields_written {rest : List (Token × List Char)}
    (inner : lexer.nextScan.token ≠ .endOfInput) (other : lexer.nextScan.token ≠ .comment)
    (sound : lexer.nextScan.defect = none) (silent : (layout.step (lexer.nextWritten file)).1 = [])
    (later : lexer.pastNext.Yields file (layout.step (lexer.nextWritten file)).2 rest) :
    lexer.Yields file layout ((lexer.nextScan.token, lexer.nextText) :: rest) := by
  refine ⟨?_, ?_, ?_⟩
  · rw [texts, dif_neg inner, later.texts]
  · rw [scanned, dif_neg inner, Layout.spread_of_written other, silent, later.silent]
    rfl
  · rw [readings, dif_neg inner, reportsOf, List.flatMap_cons, reports_nextItem sound]
    exact later.sound

theorem scan_added (afterProper : Bool) {token : Token} (added : Layout.isAdded token = true)
    (rest : List Char) :
    ∃ character, token.display.toList = [character] ∧ Text.isBlank character = false ∧
      scan afterProper (character :: '\n' :: rest) = { token, width := 1 } := by
  simp only [Layout.isAdded, Bool.or_eq_true, decide_eq_true_eq] at added
  rcases added with (rfl | rfl) | rfl
  · exact ⟨'{', by decide, by decide, rfl⟩
  · exact ⟨'}', by decide, by decide, rfl⟩
  · exact ⟨';', by decide, by decide, rfl⟩

structure Holds (lexer : Lexer) (layout : Layout) (blanks text : List Char) : Prop where
  behind : lexer.EndsBehind
  explicit : Layout.AllExplicit layout.blocks
  ahead : lexer.cursor.ahead = blanks ++ text
  blank : ∀ character ∈ blanks, Text.isBlank character = true

namespace Holds

variable {blanks text : List Char}
  {rest : List (Token × List Char)}

theorem shift {more : List Char} (holds : lexer.Holds layout blanks (more ++ text))
    (blank : ∀ character ∈ more, Text.isBlank character = true) :
    lexer.Holds layout (blanks ++ more) text where
  behind := holds.behind
  explicit := holds.explicit
  ahead := by rw [holds.ahead, List.append_assoc]
  blank := List.forall_mem_append.2 ⟨holds.blank, blank⟩

theorem yields {found : Scan} (holds : lexer.Holds layout blanks text)
    (starts : leads Text.isBlank text = false)
    (scanned : scan (lexer.touches && blanks.isEmpty) text = found)
    (allows : layout.Allows found.token) (inner : found.token ≠ .endOfInput)
    (other : found.token ≠ .comment) (sound : found.defect = none)
    (later : ∀ {next : Lexer} {after : Layout}, next.Holds after [] (text.drop found.width) →
      next.touches = (found.token == .properIdentifier) → after.started = true →
      after.opener = Layout.announced found.token → next.Yields file after rest) :
    lexer.Yields file layout ((found.token, text.take found.width) :: rest) := by
  obtain ⟨next, itself, after⟩ :=
    nextScan_of_ahead holds.behind holds.ahead holds.blank starts
  rw [scanned] at next
  have passes : layout.Allows (lexer.nextWritten file).token := by
    rw [nextWritten, next]
    exact allows
  obtain ⟨silent, explicit⟩ := Layout.step_explicit holds.explicit passes
  have touches := touches_pastNext holds.behind (by rw [next]; exact inner)
  have opener := Layout.step_explicit_opener holds.explicit passes
  rw [next] at itself after touches
  rw [← itself, ← next]
  apply yields_written (by rw [next]; exact inner) (by rw [next]; exact other)
    (by rw [next]; exact sound) silent
  apply later
  · exact ⟨behind_pastNext holds.behind, explicit, after, by simp⟩
  · exact touches
  · exact Layout.step_started _ _
  · rw [opener, nextWritten, next]

theorem yields_comment {found : Scan} (holds : lexer.Holds layout blanks text)
    (starts : leads Text.isBlank text = false)
    (scanned : scan (lexer.touches && blanks.isEmpty) text = found)
    (comment : found.token = .comment) (sound : found.defect = none)
    (later : ∀ {next : Lexer}, next.Holds layout [] (text.drop found.width) →
      next.touches = false → next.Yields file layout rest) :
    lexer.Yields file layout ((.comment, text.take found.width) :: rest) := by
  obtain ⟨next, itself, after⟩ :=
    nextScan_of_ahead holds.behind holds.ahead holds.blank starts
  rw [scanned] at next
  have isComment : lexer.nextScan.token = .comment := by rw [next]; exact comment
  have touches := touches_pastNext holds.behind (by simp [isComment])
  rw [next] at itself after
  rw [← itself]
  apply Lexer.yields_comment isComment (by rw [next]; exact sound)
  apply later
  · exact ⟨behind_pastNext holds.behind, holds.explicit, after, by simp⟩
  · rw [touches, isComment]
    rfl

/-- At the end of the text nothing is left to add. -/
theorem yields_ended (holds : lexer.Holds layout blanks []) (allows : layout.Allows .endOfInput) :
    lexer.Yields file layout [(.endOfInput, [])] := by
  obtain ⟨next, -, -⟩ := nextScan_of_ahead holds.behind holds.ahead holds.blank rfl
  have passes : layout.Allows (lexer.nextWritten file).token := by
    rw [nextWritten, next]
    exact allows
  apply Lexer.yields_ended
  · rw [next]
    rfl
  · rw [next]
    rfl
  · exact (Layout.step_explicit holds.explicit passes).1

end Holds

theorem announced_added {token : Token} (added : Layout.isAdded token = true) :
    Layout.announced token = none ∧ (token == .properIdentifier) = false := by
  simp only [Layout.isAdded, Bool.or_eq_true, decide_eq_true_eq] at added
  rcases added with (rfl | rfl) | rfl
  · exact ⟨rfl, rfl⟩
  · exact ⟨rfl, rfl⟩
  · exact ⟨rfl, rfl⟩

section Added

variable {text : List Char} {rest : List (Token × List Char)}

/-- One brace or semicolon on a line of its own, before which layout may have a block due. -/
theorem yields_one {token : Token} {blanks : List Char}
    (added : Layout.isAdded token = true)
    (holds : lexer.Holds layout blanks (inserted [token] ++ text))
    (allows : layout.Allows token)
    (later : ∀ {next : Lexer} {after : Layout}, next.Holds after ['\n'] text →
      next.touches = false → after.started = true → after.opener = none →
      next.Yields file after rest) :
    lexer.Yields file layout (spelled token :: rest) := by
  obtain ⟨opener, proper⟩ := announced_added added
  have lineFeed : ∀ character ∈ ['\n'], Text.isBlank character = true :=
    List.forall_mem_singleton.2 rfl
  obtain ⟨character, display, visible, scanned⟩ :=
    scan_added (lexer.touches && (blanks ++ ['\n']).isEmpty) added text
  have text' : inserted [token] ++ text = ['\n'] ++ character :: '\n' :: text := by
    simp [inserted, display]
  rw [text'] at holds
  have yields := @Holds.yields file layout lexer (blanks ++ ['\n']) (character :: '\n' :: text)
    rest { token, width := 1 } (holds.shift lineFeed) visible scanned allows
    (Layout.added_ne_endOfInput added) (Layout.added_ne_comment added) rfl
  rw [spelled, display]
  apply yields
  intro next after holds touches started due
  have shifted : next.Holds after ([] ++ ['\n']) text := Holds.shift holds lineFeed
  exact later shifted (touches.trans proper) started (due.trans opener)

/-- By induction over the tokens: all of them are read as written, each on its line. -/
theorem yields_added {added : List Token} (known : Layout.AreAdded added) {blanks : List Char}
    (holds : lexer.Holds layout blanks (inserted added ++ text)) (apart : lexer.touches = false)
    (started : layout.started = true) (due : layout.opener = none)
    (later : ∀ {next : Lexer} {after : Layout} {blanks : List Char}, next.Holds after blanks text →
      next.touches = false → after.started = true → after.opener = none →
      next.Yields file after rest) :
    lexer.Yields file layout (added.map spelled ++ rest) := by
  induction added generalizing lexer layout blanks with
  | nil => exact later holds apart started due
  | cons token added induction =>
    rw [Layout.areAdded_cons] at known
    have first : inserted (token :: added) ++ text = inserted [token] ++ (inserted added ++ text) := by
      simp [inserted]
    rw [first] at holds
    exact yields_one known.1 holds ⟨Or.inl started, Or.inl due⟩
      fun holds apart started due => induction known.2 holds apart started due

end Added

/-- A proper identifier that was read last and touches what is ahead stands on the line of it, and
after it no block is due. -/
def Near (layout : Layout) (lexer : Lexer) : Prop :=
  lexer.touches = true →
    layout.started = true ∧ layout.opener = none ∧
      lexer.lastLine = some lexer.cursor.position.line

theorem lastLine_pastNext (other : lexer.nextScan.token ≠ .comment) :
    lexer.pastNext.lastLine = some lexer.place.position.line := by
  rw [pastNext, if_neg other]

theorem line_pastNext (inLine : '\n' ∉ lexer.nextText) :
    lexer.pastNext.cursor.position.line = lexer.place.position.line := by
  rw [cursor_pastNext, Cursor.position_skip]
  exact Position.line_afterAll inLine _

theorem proper_inLine (proper : lexer.nextScan.token = .properIdentifier) :
    '\n' ∉ lexer.nextText := by
  have found : lexer.nextScan = scanConstructor lexer.place.ahead := scan_proper _ _ proper
  rw [nextText, found, scanConstructor, take_takeWhile]
  intro member
  have word := List.mem_takeWhile_imp member
  exact absurd word (by decide)

theorem near_pastNext (behind : lexer.EndsBehind) (inner : lexer.nextScan.token ≠ .endOfInput)
    (idle : layout.Idle) (file : FileId) :
    lexer.pastNext.Near (layout.step (lexer.nextWritten file)).2 := by
  intro touches
  rw [touches_pastNext behind inner, beq_iff_eq] at touches
  refine ⟨Layout.step_started _ _, ?_, ?_⟩
  · rw [Layout.step_opener _ idle, nextWritten, touches]
    rfl
  · rw [lastLine_pastNext (by simp [touches]), line_pastNext (proper_inLine touches)]

/-- Layout adds nothing between a proper identifier and a dot that touches it. -/
theorem step_touching (started : layout.started = true) (due : layout.opener = none)
    (line : lexer.lastLine = some lexer.cursor.position.line) (close : lexer.gap = [])
    (quiet : Layout.isQuiet lexer.nextScan.token = true) :
    (layout.step (lexer.nextWritten file)).1 = [] := by
  apply Layout.step_quiet started due _ quiet
  rw [nextWritten, place_of_gap close, line]
  simp

/-- A dot before an operator still qualifies it with layout written out. -/
theorem qualifies_bracedText (file : FileId) (behind : lexer.EndsBehind)
    (apart : lexer.touches = false) (started : layout.started = true) (due : layout.opener = none)
    (line : lexer.lastLine = some lexer.cursor.position.line)
    (qualifying : qualifies lexer.cursor.ahead = true) :
    qualifies (lexer.bracedText file layout) = true := by
  obtain ⟨first, rest, ahead, symbol⟩ := exists_symbol_of_qualifies qualifying
  have starts : leads Text.isBlank lexer.cursor.ahead = false := by
    rw [ahead]
    exact blank_of_symbol symbol
  obtain ⟨close, place⟩ := place_of_ahead (List.nil_append _).symm (by simp) starts
  obtain ⟨next, itself, -⟩ :=
    nextScan_of_ahead behind (List.nil_append lexer.cursor.ahead).symm (by simp) starts
  rw [apart, Bool.false_and] at next
  have inner : lexer.nextScan.token ≠ .endOfInput := by
    apply nextScan_inner
    rw [place, ahead]
    exact List.cons_ne_nil _ _
  rw [bracedText, dif_neg inner, close, itself, next]
  split
  · exact qualifies_next qualifying _
  · rename_i other
    have operator : lexer.nextScan = scanOperator lexer.cursor.ahead := by
      rw [next, ahead, scan_of_symbol symbol]
      rw [ahead, scan_of_symbol symbol] at other
      split
      · rename_i comment
        rw [if_pos comment] at other
        exact absurd rfl other
      · rfl
    have quiet : Layout.isQuiet lexer.nextScan.token = true := by
      rw [operator]
      exact scanOperator_token (Layout.isQuiet · = true) rfl rfl (by decide) _
    rw [step_touching started due line close quiet]
    exact qualifies_next qualifying _

structure Sane (file : FileId) (layout : Layout) (lexer : Lexer) : Prop where
  behind : lexer.EndsBehind
  fresh : layout.Fresh
  idle : layout.Idle
  near : lexer.Near layout
  sound : reportsOf (lexer.readings file) = []

namespace Sane

theorem defect (sane : lexer.Sane file layout) : lexer.nextScan.defect = none := by
  have sound := sane.sound
  rw [readings] at sound
  split at sound
  · exact defect_of_reports (by simpa [reportsOf] using sound)
  · rw [reportsOf, List.flatMap_cons] at sound
    exact defect_of_reports (List.append_eq_nil_iff.1 sound).1

theorem soundNext (sane : lexer.Sane file layout)
    (inner : lexer.nextScan.token ≠ .endOfInput) :
    reportsOf (lexer.pastNext.readings file) = [] := by
  have sound := sane.sound
  rw [readings, dif_neg inner, reportsOf, List.flatMap_cons] at sound
  exact (List.append_eq_nil_iff.1 sound).2

theorem comment (sane : lexer.Sane file layout) (found : lexer.nextScan.token = .comment) :
    lexer.pastNext.Sane file layout where
  behind := behind_pastNext sane.behind
  fresh := sane.fresh
  idle := sane.idle
  near := by
    intro touches
    rw [touches_pastNext sane.behind (by simp [found]), found] at touches
    cases touches
  sound := sane.soundNext (by simp [found])

theorem written (sane : lexer.Sane file layout) (inner : lexer.nextScan.token ≠ .endOfInput) :
    lexer.pastNext.Sane file (layout.step (lexer.nextWritten file)).2 where
  behind := behind_pastNext sane.behind
  fresh := Layout.step_fresh _ _
  idle := by
    intro unstarted
    rw [Layout.step_started] at unstarted
    cases unstarted
  near := near_pastNext sane.behind inner sane.idle file
  sound := sane.soundNext inner

end Sane

/-- What a lexer finds that may or may not touch a proper identifier before it. -/
structure Rescans (lexer : Lexer) (afterProper : Bool) : Prop where
  same : scan afterProper lexer.place.ahead = lexer.nextScan
  touching : afterProper = true → lexer.touches = true ∧ lexer.gap = []

theorem rescans_self (behind : lexer.EndsBehind) :
    lexer.Rescans (lexer.touches && lexer.gap.isEmpty) where
  same := by rw [nextScan, afterProper_eq behind]
  touching := by
    intro flag
    simpa using flag

/-- Where layout adds tokens the next one is found without looking at what is before it. -/
theorem rescans_apart (sane : lexer.Sane file layout)
    (adds : (layout.step (lexer.nextWritten file)).1 ≠ []) : lexer.Rescans false where
  same := by
    have itself := (rescans_self sane.behind).same
    cases flag : lexer.touches && lexer.gap.isEmpty with
    | false =>
      rw [flag] at itself
      exact itself
    | true =>
      rw [flag] at itself
      obtain ⟨touches, close⟩ := (rescans_self sane.behind).touching flag
      obtain ⟨started, due, line⟩ := sane.near touches
      rcases scan_flag lexer.place.ahead with same | dot
      · exact same.trans itself
      · rw [itself] at dot
        exact absurd (step_touching started due line close (by rw [dot]; rfl)) adds
  touching := fun flag => nomatch flag

/-- The tokens added in front of one are read, and then that one in the place of the other. -/
theorem yields_step {text : List Char}
    {rest : List (Token × List Char)} (sane : lexer.Sane file layout)
    {other : Lexer} {explicit : Layout}
    (holds : other.Holds explicit lexer.gap
      (inserted (layout.step (lexer.nextWritten file)).1 ++ text))
    (touches : other.touches = lexer.touches) (started : explicit.started = layout.started)
    (due : explicit.opener = layout.opener)
    (later : ∀ {next : Lexer} {after : Layout} {blanks : List Char}, next.Holds after blanks text →
      after.Allows lexer.nextScan.token → lexer.Rescans (next.touches && blanks.isEmpty) →
      next.Yields file after rest) :
    other.Yields file explicit
      ((layout.step (lexer.nextWritten file)).1.map spelled ++ rest) := by
  have known := Layout.step_added (lexer.nextWritten file) layout
  obtain ⟨first, more, split, allowed⟩ := Layout.step_allows (lexer.nextWritten file) sane.fresh
  have allows : explicit.Allows first := by
    refine ⟨?_, ?_⟩
    · rw [started]
      exact allowed.begun
    · rw [due]
      exact allowed.due
  cases found : (layout.step (lexer.nextWritten file)).1 with
  | nil =>
    rw [found] at split holds
    cases split
    apply later holds allows
    rw [touches]
    exact rescans_self sane.behind
  | cons token added =>
    have apart := rescans_apart sane (by rw [found]; exact List.cons_ne_nil _ _)
    rw [found] at split holds known
    have same : token = first := (List.cons.inj split).1
    subst same
    rw [Layout.areAdded_cons] at known
    have rest : inserted (token :: added) ++ text =
        inserted [token] ++ (inserted added ++ text) := by
      simp [inserted]
    rw [rest] at holds
    apply yields_one known.1 holds allows
    intro next after holds apart' started due
    apply yields_added known.2 holds apart' started due
    intro next after blanks holds apart' started due
    apply later holds ⟨Or.inl started, Or.inl due⟩
    rw [apart', Bool.false_and]
    exact apart

/-- A token is found again in a text that goes on with layout written out. -/
theorem rescan_braced {layout after : Layout} {flag : Bool} (sane : lexer.Sane file layout)
    (inner : lexer.nextScan.token ≠ .endOfInput) (rescans : lexer.Rescans flag)
    (next : lexer.nextScan.token = .comment ∨ after = (layout.step (lexer.nextWritten file)).2) :
    scan flag (lexer.nextText ++ lexer.pastNext.bracedText file after) = lexer.nextScan := by
  have length := lexer.length_nextText
  have same := rescans.same
  obtain ⟨first, text, found⟩ := exists_nextText inner
  rw [found] at length
  rw [← nextText_append, found] at same
  rw [found]
  have width : (scan flag (first :: (text ++ lexer.pastNext.cursor.ahead))).width =
      text.length + 1 := by
    rw [← List.cons_append, same, ← length]
    rfl
  have sound : (scan flag (first :: (text ++ lexer.pastNext.cursor.ahead))).defect = none := by
    rw [← List.cons_append, same]
    exact sane.defect
  refine (scan_cut (cuts_bracedText file after lexer.pastNext) flag width sound ?_).trans same
  intro isFlag isDot qualifying
  subst isFlag
  have dot : lexer.nextScan.token = .dot := by
    rw [← same, isDot]
    exact congrArg Scan.token (scan_qualifying qualifying)
  obtain ⟨touches, close⟩ := rescans.touching rfl
  obtain ⟨started, due, line⟩ := sane.near touches
  have after_eq : after = (layout.step (lexer.nextWritten file)).2 := by
    rcases next with comment | same
    · rw [dot] at comment
      cases comment
    · exact same
  have stays : lexer.pastNext.cursor.position.line = lexer.place.position.line := by
    apply line_pastNext
    rw [found, isDot]
    decide
  apply qualifies_bracedText file (behind_pastNext sane.behind)
  · rw [touches_pastNext sane.behind inner, dot]
    rfl
  · rw [after_eq]
    exact Layout.step_started _ _
  · rw [after_eq, Layout.step_opener _ sane.idle, nextWritten, dot]
    rfl
  · rw [lastLine_pastNext (by simp [dot]), stays]
  · exact qualifying

/-- By induction over the text: with layout written out it holds the tokens that layout made of it,
and layout adds no more. -/
theorem yields_braced (sane : lexer.Sane file layout) {other : Lexer} {explicit : Layout}
    (holds : other.Holds explicit [] (lexer.bracedText file layout))
    (touches : other.touches = lexer.touches) (started : explicit.started = layout.started)
    (due : explicit.opener = layout.opener) :
    other.Yields file explicit (lexer.bracedTexts file layout) := by
  fun_induction bracedText file layout lexer generalizing other explicit with
  | case1 layout lexer step ended =>
    have holds' : other.Holds explicit lexer.gap (inserted step.1 ++ []) := by
      rw [List.append_nil]
      exact Holds.shift holds lexer.gap_blank
    rw [bracedTexts, dif_pos ended]
    apply yields_step sane holds' touches started due
    intro next after blanks holds allows _
    rw [ended] at allows
    exact holds.yields_ended allows
  | case2 layout lexer inner shorter comment induction =>
    have holds' := Holds.shift holds lexer.gap_blank
    have self := rescans_self sane.behind
    rw [← touches] at self
    have scanned : scan (other.touches && lexer.gap.isEmpty)
        (lexer.nextText ++ lexer.pastNext.bracedText file layout) = lexer.nextScan :=
      rescan_braced sane inner self (Or.inl comment)
    rw [bracedTexts, dif_neg inner, if_pos comment,
      ← take_nextText lexer (lexer.pastNext.bracedText file layout)]
    apply holds'.yields_comment (starts_nextText inner _) scanned comment sane.defect
    intro next holds apart
    rw [drop_nextText] at holds
    apply induction (sane.comment comment) holds _ started due
    rw [apart, touches_pastNext sane.behind inner, comment]
    rfl
  | case3 layout lexer step inner shorter comment induction =>
    have holds' := Holds.shift holds lexer.gap_blank
    rw [bracedTexts, dif_neg inner, if_neg comment]
    apply yields_step sane holds' touches started due
    intro next after blanks holds allows rescans
    have scanned := rescan_braced sane inner rescans (Or.inr rfl)
    rw [← take_nextText lexer (lexer.pastNext.bracedText file step.2)]
    apply holds.yields (starts_nextText inner _) scanned allows inner comment sane.defect
    intro next after holds touches started due
    rw [drop_nextText] at holds
    apply induction (sane.written inner) holds
    · rw [touches, touches_pastNext sane.behind inner]
    · rw [started, Layout.step_started]
    · rw [due, Layout.step_opener _ sane.idle]
      rfl

end Lexer

end Haskell

end Offside
