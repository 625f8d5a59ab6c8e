import Offside.Proofs.Layout.Joined
import Offside.Proofs.Lockstep.Rules

/-!
What a text with nested brackets leaves open. Layout opens and closes its own blocks whatever the
brackets of a text do, but where all brackets of a text are nested, those of layout among them, every
written brace is closed and no bracket is open once the text ends. The block of a whole text is closed
by the end of input alone.
-/

namespace Offside

set_option autoImplicit false

/-- The brackets that are open after tokens. -/
def nestAll (brackets : List Token) (tokens : List Token) : Option (List Token) :=
  tokens.foldlM nestAfter brackets

theorem nestAll_cons (brackets : List Token) (token : Token) (later : List Token) :
    nestAll brackets (token :: later) =
      (nestAfter brackets token).bind fun left => nestAll left later :=
  List.foldlM_cons

theorem nestAll_append (brackets first second : List Token) :
    nestAll brackets (first ++ second) =
      (nestAll brackets first).bind fun left => nestAll left second :=
  List.foldlM_append

theorem nestAll_singleton (brackets : List Token) (token : Token) :
    nestAll brackets [token] = nestAfter brackets token := by
  rw [nestAll_cons]
  exact Option.bind_fun_some _

theorem closeInnermost_eq_some {opening : Token} {brackets left : List Token} :
    closeInnermost opening brackets = some left ↔ brackets = opening :: left := by
  cases brackets with
  | nil => simp [closeInnermost]
  | cons innermost outer =>
    simp only [closeInnermost, Option.ite_none_right_eq_some, Option.some.injEq, List.cons.injEq]

namespace Haskell.Layout

def roundCount (brackets : List Token) : Nat := brackets.countP (· != .openBrace)

/-- The blocks up to the outermost explicit one, that one included. -/
def explicitReach : List Block → Nat
  | [] => 0
  | block :: outer => if .explicit ∈ block :: outer then explicitReach outer + 1 else 0

theorem explicitReach_of_none {blocks : List Block} (none : .explicit ∉ blocks) :
    explicitReach blocks = 0 := by
  cases blocks with
  | nil => rfl
  | cons block outer => rw [explicitReach, if_neg none]

theorem explicitReach_cons_le (block : Block) (outer : List Block) :
    explicitReach (block :: outer) ≤ explicitReach outer + 1 := by
  rw [explicitReach]
  split
  · exact Nat.le_refl _
  · exact Nat.zero_le _

theorem explicitReach_outer {block : Block} {outer : List Block} {bound : Nat}
    (within : explicitReach (block :: outer) ≤ bound + 1) : explicitReach outer ≤ bound := by
  by_cases member : Block.explicit ∈ outer
  · rw [explicitReach, if_pos (List.mem_cons_of_mem _ member)] at within
    omega
  · rw [explicitReach_of_none member]
    exact Nat.zero_le _

theorem explicit_not_mem {blocks : List Block} (none : explicitReach blocks = 0) :
    .explicit ∉ blocks := by
  intro member
  cases blocks with
  | nil => cases member
  | cons block outer =>
    rw [explicitReach, if_pos member] at none
    cases none

/-- The open brackets of a text and its open blocks: every block that an explicit one keeps open has
its brace among the brackets. -/
structure Matches (brackets : List Token) (layout : Layout) : Prop where
  depth : layout.depth = roundCount brackets
  braces : explicitReach layout.blocks ≤ brackets.count .openBrace

theorem Adds.reach {blocks after : List Block} {added : List Token} (adds : Adds blocks added after)
    {brackets left : List Token} (nested : nestAll brackets added = some left)
    (within : explicitReach blocks ≤ brackets.count .openBrace) :
    explicitReach after ≤ left.count .openBrace ∧ roundCount left = roundCount brackets := by
  induction adds generalizing brackets with
  | done blocks =>
    cases nested
    exact ⟨within, rfl⟩
  | @opening blocks _ _ block deeper later induction =>
    rw [nestAll_cons] at nested
    obtain ⟨reach, round⟩ := induction nested (by
      rw [List.count_cons_self]
      exact Nat.le_trans (explicitReach_cons_le _ _) (Nat.succ_le_succ within))
    exact ⟨reach, round.trans (by simp [roundCount])⟩
  | empty later induction =>
    rw [nestAll_cons, nestAfter, Option.bind_some, nestAll_cons] at nested
    exact induction nested within
  | @closing blocks _ _ block later induction =>
    rw [nestAll_cons, Option.bind_eq_some_iff] at nested
    obtain ⟨between, closed, nested⟩ := nested
    rw [closeInnermost_eq_some.1 closed] at within ⊢
    rw [List.count_cons_self] at within
    obtain ⟨reach, round⟩ := induction nested (explicitReach_outer within)
    exact ⟨reach, round.trans (by simp [roundCount])⟩
  | separating later induction =>
    rw [nestAll_cons] at nested
    exact induction nested within

theorem closeFor_depth (token : Token) (layout : Layout) :
    (layout.closeFor token).2.depth = layout.depth := by
  unfold closeFor
  split
  · split
    · split
      · rfl
      · rfl
    · rfl
  iterate 3
    · split
      · rfl
      · rfl
  · split
    · rfl
    · rfl
  · rfl
  · rfl

theorem meet_depth (written : Written) (layout : Layout) :
    (layout.meet written).2.depth = layout.depth := by
  unfold meet
  split
  · rfl
  · split
    · rw [align_layout]
    · simp only
      split
      · rfl
      · split
        · rfl
        · rw [align_layout]

theorem openFor_depth (token : Token) (layout : Layout) :
    (layout.openFor token).depth =
      match token with
      | .openParen | .openBracket => layout.depth + 1
      | .closeParen | .closeBracket => layout.depth - 1
      | _ => layout.depth := by
  cases token <;> rfl

theorem Found.reach {token : Token} {blocks after between : List Block} {added : List Token}
    (found : Found token blocks added after between) {brackets left : List Token}
    (nested : nestAfter brackets token = some left)
    (within : explicitReach between ≤ brackets.count .openBrace) :
    explicitReach after ≤ left.count .openBrace := by
  rw [found.after_eq]
  cases token with
  | openBrace =>
    cases nested
    rw [List.count_cons_self]
    exact Nat.le_trans (explicitReach_cons_le _ _) (Nat.succ_le_succ within)
  | closeBrace =>
    rw [closeInnermost_eq_some.1 nested, List.count_cons_self] at within
    change explicitReach (dropExplicit between) ≤ _
    unfold dropExplicit
    split
    · exact explicitReach_outer within
    · rename_i other
      have none : Block.explicit ∉ between := by
        intro member
        have innermost := found.closing rfl member
        cases between with
        | nil => cases member
        | cons block outer =>
          cases block with
          | explicit => exact other outer rfl
          | implicit block => exact innermost block rfl
      rw [explicitReach_of_none none]
      exact Nat.zero_le _
  | closeParen | closeBracket =>
    rw [closeInnermost_eq_some.1 nested] at within
    simpa [writtenBlocks] using within
  | openParen | openBracket =>
    cases nested
    simpa [writtenBlocks] using within
  | _ =>
    cases nested
    exact within

theorem step_matches {written : Written} {layout : Layout} (fresh : layout.Fresh)
    {brackets left : List Token} (matched : Matches brackets layout)
    (nested : nestAll brackets ((layout.step written).1 ++ [written.token]) = some left) :
    Matches left (layout.step written).2 := by
  obtain ⟨between, found⟩ := step_found written fresh
  rw [nestAll_append, Option.bind_eq_some_iff] at nested
  obtain ⟨met, added, itself⟩ := nested
  rw [nestAll_singleton] at itself
  obtain ⟨reach, round⟩ := found.adds.reach added matched.braces
  refine ⟨?_, found.reach itself reach⟩
  rw [step_eq_meet, pass, openFor_depth, closeFor_depth, meet_depth, matched.depth, ← round]
  cases token : written.token with
  | closeParen | closeBracket =>
    rw [token] at itself
    rw [closeInnermost_eq_some.1 itself]
    simp [roundCount]
  | closeBrace =>
    rw [token] at itself
    rw [closeInnermost_eq_some.1 itself]
    simp [roundCount]
  | _ =>
    rw [token] at itself
    cases itself
    simp [roundCount]

theorem emit_matches {written : List Written} {layout : Layout} (fresh : layout.Fresh)
    {brackets left : List Token} (matched : Matches brackets layout)
    (nested : nestAll brackets (layout.emit written).1 = some left) :
    Matches left (layout.emit written).2 := by
  induction written generalizing layout brackets with
  | nil =>
    cases nested
    exact matched
  | cons token later induction =>
    have split : (layout.emit (token :: later)).1 =
        ((layout.step token).1 ++ [token.token]) ++ ((layout.step token).2.emit later).1 := by
      rw [emit_cons, List.append_assoc]
      rfl
    rw [split, nestAll_append, Option.bind_eq_some_iff] at nested
    obtain ⟨between, first, nested⟩ := nested
    exact induction (step_fresh token layout) (step_matches fresh matched first) nested

/-- Where the tokens added in front of a written one leave no bracket open, none but implicit blocks
were open. -/
theorem closed_of_nested {written : Written} {layout : Layout} (fresh : layout.Fresh) {brackets : List Token} (matched : Matches brackets layout)
    (nested : nestAll brackets (layout.step written).1 = some []) :
    layout.depth = 0 ∧ .explicit ∉ layout.blocks := by
  obtain ⟨between, found⟩ := step_found written fresh
  obtain ⟨reach, round⟩ := found.adds.reach nested matched.braces
  have none : Block.explicit ∉ between := explicit_not_mem (Nat.le_zero.1 reach)
  refine ⟨by rw [matched.depth, ← round]; rfl, ?_⟩
  intro member
  have kept := found.adds.explicit
  have explicit : false ∈ kinds (fun block => !isImplicit block) layout.blocks :=
    List.mem_map.2 ⟨.explicit, List.mem_filter.2 ⟨member, rfl⟩, rfl⟩
  rw [← kept] at explicit
  obtain ⟨block, kept, kind⟩ := List.mem_map.1 explicit
  cases block with
  | explicit => exact none (List.mem_filter.1 kept).1
  | implicit block => cases kind

end Haskell.Layout

end Offside

/-!
Where one text ends and another begins. A text whose first token stands at the margin is one block in
column zero, which only the end of input closes. If all brackets of the text are nested, its end closes
the blocks inside that block and then the block itself. A token of a further text at the margin closes
the same blocks but the last, and is separated from the items before it; from there on the further text
goes on as it would alone.
-/

namespace Offside.Haskell

set_option autoImplicit false

open Offside.Lexical

namespace Layout

/-- The block of a text whose first token stands at the margin. -/
def ground : ImplicitBlock := ⟨0, .kwWhere, 0⟩

def onGround : Layout := { blocks := [.implicit ground], started := true }

structure Grounded (layout : Layout) : Prop where
  started : layout.started = true
  last : layout.blocks.getLast? = some (.implicit ground)
  deepens : Deepens layout.blocks

theorem Grounded.fresh {layout : Layout} (grounded : layout.Grounded) : layout.Fresh := by
  intro notStarted
  rw [grounded.started] at notStarted
  cases notStarted

section Blocks

variable {blocks : List Block}

theorem last_cons (block : Block) (last : blocks.getLast? = some (.implicit ground)) :
    (block :: blocks).getLast? = some (.implicit ground) := by
  cases blocks with
  | nil => cases last
  | cons next outer => rw [List.getLast?_cons_cons, last]

/-- Blocks are closed from the innermost on, so the last one stays if it is not to be closed. -/
theorem splitBlocks_last {closes : ImplicitBlock → Bool} (stays : closes ground = false)
    (last : blocks.getLast? = some (.implicit ground)) :
    (splitBlocks closes blocks).2.getLast? = some (.implicit ground) := by
  fun_induction splitBlocks closes blocks with
  | case1 block outer holds count kept split induction =>
    rw [split] at induction
    apply induction
    cases outer with
    | nil =>
      cases last
      rw [stays] at holds
      cases holds
    | cons next outer => rwa [List.getLast?_cons_cons] at last
  | case2 block outer stays' => exact last
  | case3 blocks others => exact last

theorem dropExplicit_last (written : .explicit ∈ blocks)
    (last : blocks.getLast? = some (.implicit ground)) :
    (dropExplicit (splitBlocks (fun _ => true) blocks).2).getLast? = some (.implicit ground) := by
  induction blocks with
  | nil => cases written
  | cons block outer induction =>
    cases block with
    | explicit =>
      cases outer with
      | nil => cases last
      | cons next outer => rwa [List.getLast?_cons_cons] at last
    | implicit block =>
      have inside : Block.explicit ∈ outer := by simpa using written
      cases outer with
      | nil => cases inside
      | cons next outer =>
        rw [List.getLast?_cons_cons] at last
        exact induction inside last

end Blocks

section Steps

variable {layout : Layout} {written : Written}

theorem leftOnLine_last (last : layout.blocks.getLast? = some (.implicit ground)) :
    (layout.leftOnLine written).getLast? = some (.implicit ground) := by
  unfold leftOnLine
  split
  · exact splitBlocks_last (by simp [ground]) last
  · exact last

theorem meet_last (grounded : layout.Grounded) :
    (layout.meet written).2.blocks.getLast? = some (.implicit ground) := by
  unfold meet
  rw [grounded.started]
  simp only [Bool.not_true, Bool.false_and, Bool.false_eq_true, if_false]
  split
  · rw [align_layout]
    exact leftOnLine_last grounded.last
  · split
    · exact grounded.last
    · split
      · exact last_cons _ grounded.last
      · rw [align_layout]
        exact leftOnLine_last grounded.last

theorem closeFor_last {token : Token} (inner : token ≠ .endOfInput)
    (last : layout.blocks.getLast? = some (.implicit ground)) :
    (layout.closeFor token).2.blocks.getLast? = some (.implicit ground) := by
  unfold closeFor
  split
  · split
    · rename_i block outer found
      rw [found] at last
      split
      · rename_i isLet
        cases outer with
        | nil =>
          cases last
          cases isLet
        | cons next outer => rwa [List.getLast?_cons_cons] at last
      · rw [found]
        exact last
    · exact last
  iterate 3
    · split
      · rename_i inBrackets
        exact splitBlocks_last (decide_eq_false (Nat.not_le.2 inBrackets)) last
      · exact last
  · split
    · rename_i written
      exact dropExplicit_last (by simpa using written) last
    · exact last
  · exact absurd rfl inner
  · exact last

theorem openFor_last {token : Token} (last : layout.blocks.getLast? = some (.implicit ground)) :
    (layout.openFor token).blocks.getLast? = some (.implicit ground) := by
  by_cases opens : token = .openBrace
  · subst opens
    exact last_cons _ last
  · rw [blocks_openFor opens]
    exact last

theorem step_grounded (inner : written.token ≠ .endOfInput) (grounded : layout.Grounded) :
    (layout.step written).2.Grounded where
  started := by rw [step_eq_meet, pass, openFor_started, closeFor_started, meet_started]
  last := by
    rw [step_eq_meet]
    exact openFor_last (closeFor_last inner (meet_last grounded))
  deepens := step_deepens written grounded.fresh grounded.deepens

theorem emit_grounded {tokens : List Written}
    (inner : ∀ written ∈ tokens, written.token ≠ .endOfInput) (grounded : layout.Grounded) :
    (layout.emit tokens).2.Grounded := by
  induction tokens generalizing layout with
  | nil => exact grounded
  | cons written later induction =>
    rw [List.forall_mem_cons] at inner
    exact induction inner.2 (step_grounded inner.1 grounded)

end Steps

/-- The blocks inside the block of a text that has no written braces open are all indented. -/
theorem splitBlocks_ground {blocks : List Block} (none : .explicit ∉ blocks)
    (last : blocks.getLast? = some (.implicit ground)) (deepens : Deepens blocks) :
    ∃ count, splitBlocks (fun block => decide (0 < block.column)) blocks =
        (count, [.implicit ground]) ∧
      splitBlocks (fun _ => true) blocks = (count + 1, []) := by
  induction blocks with
  | nil => cases last
  | cons block outer induction =>
    rw [List.mem_cons, not_or] at none
    cases block with
    | explicit => exact absurd rfl none.1
    | implicit block =>
      cases outer with
      | nil =>
        cases last
        exact ⟨0, rfl, rfl⟩
      | cons next outer =>
        rw [List.getLast?_cons_cons] at last
        obtain ⟨deeper, deepens⟩ := List.isChain_cons.1 deepens
        obtain ⟨count, indented, all⟩ := induction none.2 last deepens
        have inside : 0 < block.column := by
          have above := deeper next rfl
          cases next with
          | explicit => exact absurd List.mem_cons_self none.2
          | implicit next => exact Nat.lt_of_le_of_lt (Nat.zero_le _) above
        refine ⟨count + 1, ?_, ?_⟩
        · rw [splitBlocks, if_pos (decide_eq_true inside), indented]
        · rw [splitBlocks, if_pos rfl, all]

/-- A token that stands at the margin where no bracket is open opens its block, and closes nothing. -/
theorem pass_onGround {token : Token} (inner : token ≠ .endOfInput) :
    onGround.pass token = ([], onGround.openFor token) := by
  cases token with
  | endOfInput => exact absurd rfl inner
  | _ => rfl

structure AtMargin (written : Written) : Prop where
  column : written.column = 0
  firstOnLine : written.firstOnLine = true
  inner : written.token ≠ .endOfInput
  notBrace : written.token ≠ .openBrace

variable {layout : Layout} {written final : Written}

theorem step_first (margin : AtMargin written) (notModule : written.token ≠ .kwModule) :
    step written {} = ([.openBrace], onGround.openFor written.token) := by
  have opens : opensText written.token = true := by
    simp [opensText, notModule, margin.inner, margin.notBrace]
  have passed := pass_onGround margin.inner
  rw [step, if_pos (by simp [opens]), openBlock, margin.column]
  change (Token.openBrace :: (onGround.pass written.token).1, (onGround.pass written.token).2) = _
  rw [passed]

/-- What the end of input closes, a token at the margin closes too but for the block of the text, whose
items it separates. -/
theorem step_seam (grounded : layout.Grounded) (none : .explicit ∉ layout.blocks)
    (flat : layout.depth = 0) (margin : AtMargin written) (ended : final.token = .endOfInput) :
    ∃ closing, (∀ token ∈ closing, token.isBrace = true) ∧
      (layout.step final).1 = closing ++ [.closeBrace] ∧
      layout.step written = (closing ++ [.semicolon], onGround.openFor written.token) := by
  obtain ⟨count, indented, all⟩ := splitBlocks_ground none grounded.last grounded.deepens
  obtain ⟨blocks, opener, started, depth⟩ := layout
  simp only at flat indented all
  have isStarted : started = true := grounded.started
  subst flat isStarted
  have passed := pass_onGround margin.inner
  -- The token aligns with the block of the text once the blocks inside it are closed.
  have aligned : (⟨blocks, .none, true, 0⟩ : Layout).align written =
      (List.replicate count .closeBrace ++ [.semicolon], onGround) := by
    simp [align, margin.firstOnLine, margin.inner, margin.column, closeWhile, indented,
      innermostColumn, onGround, ground]
  have continued : (⟨blocks, .none, true, 0⟩ : Layout).continueBlock written =
      (List.replicate count .closeBrace ++ [.semicolon], onGround.openFor written.token) := by
    rw [continueBlock, aligned]
    simp only [passed, List.append_nil]
  have closed : ((⟨blocks, .none, true, 0⟩ : Layout).continueBlock final).1 =
      List.replicate count .closeBrace ++ [.closeBrace] := by
    rw [continueBlock, align_endOfInput final _ ended, ended]
    simp only [pass, closeFor, closeWhile, all, List.nil_append]
    exact List.replicate_succ'
  have braces : ∀ token ∈ List.replicate count Token.closeBrace, token.isBrace = true := by
    intro token member
    rw [List.eq_of_mem_replicate member]
    rfl
  cases opener with
  | none => exact ⟨List.replicate count .closeBrace, braces, closed, continued⟩
  | some opener =>
    refine ⟨.openBrace :: .closeBrace :: List.replicate count .closeBrace, ?_, ?_, ?_⟩
    · exact List.forall_mem_cons.2 ⟨rfl, List.forall_mem_cons.2 ⟨rfl, braces⟩⟩
    · have starts : ((⟨blocks, some opener, true, 0⟩ : Layout).step final) =
          (⟨blocks, .none, true, 0⟩ : Layout).startBlock final opener := rfl
      rw [starts, startBlock, if_neg (by simp [ended]), if_neg (by simp [ended])]
      simp only [closed, List.cons_append]
    · have starts : ((⟨blocks, some opener, true, 0⟩ : Layout).step written) =
          (⟨blocks, .none, true, 0⟩ : Layout).startBlock written opener := rfl
      have outermost : ¬(⟨blocks, .none, true, 0⟩ : Layout).innermostColumn.all (· < 0) = true := by
        have last := grounded.last
        simp only at last none
        cases blocks with
        | nil => cases last
        | cons block outer =>
          cases block with
          | explicit => exact absurd List.mem_cons_self none
          | implicit block => simp [innermostColumn]
      rw [starts, startBlock, if_neg margin.notBrace, if_neg fun both => outermost (by
        rw [margin.column] at both
        exact both.2)]
      simp only [continued, List.cons_append]

/-- What is handed out of a text in which all brackets are nested ends by closing its blocks. Where a
token at the margin follows instead of the end, it is separated from the text. -/
theorem emit_seam {tokens : List Written} {first : Written} (starts : tokens.head? = some first)
    (firstMargin : AtMargin first) (notModule : first.token ≠ .kwModule)
    (inner : ∀ written ∈ tokens, written.token ≠ .endOfInput) (ended : final.token = .endOfInput)
    (nested : nestAll [] ((emit {} tokens).1 ++ (step final (emit {} tokens).2).1) = some [])
    (margin : AtMargin written) :
    ∃ closing, (∀ token ∈ closing, token.isBrace = true) ∧
      (step final (emit {} tokens).2).1 = closing ++ [.closeBrace] ∧
      step written (emit {} tokens).2 =
        (closing ++ [.semicolon], onGround.openFor written.token) := by
  have grounded : (emit {} tokens).2.Grounded := by
    obtain ⟨later, rfl⟩ := List.head?_eq_some_iff.1 starts
    rw [List.forall_mem_cons] at inner
    rw [emit_cons, step_first firstMargin notModule]
    refine emit_grounded inner.2 ⟨?_, ?_, ?_⟩
    · rw [openFor_started]
      rfl
    · rw [blocks_openFor firstMargin.notBrace]
      rfl
    · rw [blocks_openFor firstMargin.notBrace]
      exact List.isChain_singleton _
  rw [nestAll_append, Option.bind_eq_some_iff] at nested
  obtain ⟨brackets, before, after⟩ := nested
  have matched : Matches brackets (emit {} tokens).2 :=
    emit_matches (fun _ => rfl) ⟨rfl, Nat.le_refl _⟩ before
  obtain ⟨flat, none⟩ := closed_of_nested grounded.fresh matched after
  exact step_seam grounded none flat margin ended

section Spreads

def isShown (written : Written) : Bool := written.token != .comment

theorem spread_append (layout : Layout) (first second : List Written) :
    layout.spread (first ++ second) =
      layout.spread first ++ (layout.emit (first.filter isShown)).2.spread second := by
  induction first generalizing layout with
  | nil => rfl
  | cons written first induction =>
    by_cases comment : written.token = .comment
    · rw [List.cons_append, spread_of_comment comment, spread_of_comment comment, induction,
        List.filter_cons_of_neg (by simp [isShown, comment]), List.cons_append]
    · rw [List.cons_append, spread_of_written comment, spread_of_written comment, induction,
        List.filter_cons_of_pos (by simpa [isShown] using comment), emit_cons, List.append_assoc,
        List.cons_append]

theorem spread_comments {comments : List Written}
    (all : ∀ written ∈ comments, written.token = .comment) (layout : Layout)
    (later : List Written) :
    layout.spread (comments ++ later) = comments.map Written.located ++ layout.spread later := by
  induction comments with
  | nil => rfl
  | cons comment comments induction =>
    rw [List.forall_mem_cons] at all
    rw [List.cons_append, spread_of_comment all.1, induction all.2, List.map_cons,
      List.cons_append]
    rfl

theorem spread_down (lines : Nat) (layout : Layout) (tokens : List Written) :
    layout.spread (tokens.map (Written.down lines)) =
      (layout.spread tokens).map (Prod.map id (Span.down lines)) := by
  induction tokens generalizing layout with
  | nil => rfl
  | cons written tokens induction =>
    have moved : layout.step (written.down lines) = layout.step written := rfl
    by_cases comment : written.token = .comment
    · have below : (written.down lines).token = .comment := comment
      rw [List.map_cons, spread_of_comment below, spread_of_comment comment, induction]
      rfl
    · have below : (written.down lines).token ≠ .comment := comment
      rw [List.map_cons, spread_of_written below, spread_of_written comment, moved, induction,
        List.map_append, List.map_cons, List.map_map]
      rfl

end Spreads

end Layout

/-- The first token of a text stands at the margin, and starts neither a module nor a block. -/
def StartsAtMargin (file : FileId) (source : List Char) : Prop :=
  ∃ written ∈ (writtenTokens file source).head?, written.column = 0 ∧
    written.token ≠ .endOfInput ∧ written.token ≠ .kwModule ∧ written.token ≠ .openBrace

theorem Lexer.firstOnLine_written {file : FileId} {lexer : Lexer} (fresh : lexer.lastLine = none)
    {written : Written} (first : (lexer.written file).head? = some written) :
    written.firstOnLine = true := by
  have own : (lexer.nextWritten file).firstOnLine = true := by
    rw [nextWritten, fresh]
    rfl
  fun_induction Lexer.written file lexer with
  | case1 lexer ended =>
    cases first
    exact own
  | case2 lexer inner shorter comment induction =>
    have same : lexer.pastNext.lastLine = none := by
      rw [pastNext, if_pos comment, fresh]
    refine induction same first ?_
    rw [nextWritten, same]
    rfl
  | case3 lexer inner shorter other induction =>
    cases first
    exact own

theorem StartsAtMargin.split {file : FileId} {source : List Char}
    (starts : StartsAtMargin file source) :
    ∃ comments written later, scannedTokens file source = comments ++ written :: later ∧
      (∀ comment ∈ comments, comment.token = .comment) ∧ written.token ≠ .comment ∧
      (writtenTokens file source).head? = some written ∧
      Layout.AtMargin written ∧ written.token ≠ .kwModule := by
  obtain ⟨written, first, column, inner, notModule, notBrace⟩ := starts
  have firstOnLine := Lexer.firstOnLine_written rfl first
  obtain ⟨later, found⟩ := List.head?_eq_some_iff.1 first
  rw [writtenTokens, Lexer.written_eq_filter, List.filter_eq_cons_iff] at found
  obtain ⟨comments, rest, split, all, shown, -⟩ := found
  refine ⟨comments, written, rest, split, ?_, by simpa using shown, first,
    ⟨column, firstOnLine, inner, notBrace⟩, notModule⟩
  simpa using all

end Offside.Haskell
