import Offside.Proofs.Layout.Emission

/-!
The open blocks along a text without written braces. Every step is one of two parts: first the line of
the written token and a block that is due, then what the token itself closes and opens. Each brace
that is added opens or closes one block, so braces tell how many blocks are open. Blocks are never
opened inside fewer brackets than those around them.
-/

namespace Offside.Haskell.Layout

set_option autoImplicit false

/-- The layout as a written token is met, before it closes or opens anything by what it is. -/
def meet (written : Written) (layout : Layout) : List Token × Layout :=
  if !layout.started && opensText written.token then
    ([.openBrace],
      { layout with
        started := true
        blocks := .implicit ⟨written.column, .kwWhere, layout.depth⟩ :: layout.blocks })
  else
    match layout.opener with
    | none => { layout with started := true }.align written
    | some opener =>
      let opened := { layout with started := true, opener := none }
      if written.token = .openBrace then ([], opened)
      else if written.token ≠ .endOfInput ∧ opened.innermostColumn.all (· < written.column) then
        ([.openBrace],
          { opened with
            blocks := .implicit ⟨written.column, opener, layout.depth⟩ :: layout.blocks })
      else (.openBrace :: .closeBrace :: (opened.align written).1, (opened.align written).2)

theorem step_eq_meet (written : Written) (layout : Layout) :
    layout.step written =
      ((layout.meet written).1 ++ ((layout.meet written).2.pass written.token).1,
        ((layout.meet written).2.pass written.token).2) := by
  obtain ⟨blocks, opener, started, depth⟩ := layout
  unfold step meet
  split
  · rfl
  · cases opener with
    | none => rfl
    | some opener =>
      simp only [startBlock]
      split
      · rfl
      · split
        · rfl
        · rfl

/-- Every added brace opens or closes a block. -/
def Balances (before : Layout) (added : List Token) (after : Layout) : Prop :=
  added.count .openBrace + before.blocks.length = added.count .closeBrace + after.blocks.length

theorem Balances.trans {first second third : Layout} {added later : List Token}
    (before : Balances first added second) (after : Balances second later third) :
    Balances first (added ++ later) third := by
  unfold Balances at before after ⊢
  rw [List.count_append, List.count_append]
  omega

theorem closeWhile_balances (closes : ImplicitBlock → Bool) (layout : Layout) :
    Balances layout (layout.closeWhile closes).1 (layout.closeWhile closes).2 := by
  have split := splitBlocks_length closes layout.blocks
  simp only [Balances, closeWhile, List.count_replicate]
  simp
  omega

theorem closeFor_balances {token : Token} (written : token ≠ .closeBrace) (layout : Layout) :
    Balances layout (layout.closeFor token).1 (layout.closeFor token).2 := by
  have same : Balances layout [] layout := rfl
  unfold closeFor
  split
  · split
    · rename_i block outer found
      split
      · simp only [Balances, found, List.length_cons]
        simp
        omega
      · exact same
    · exact same
  iterate 3
    · split
      · exact closeWhile_balances _ layout
      · exact same
  · exact absurd rfl written
  · exact closeWhile_balances _ layout
  · exact same

theorem blocks_openFor {token : Token} (written : token ≠ .openBrace) (layout : Layout) :
    (layout.openFor token).blocks = layout.blocks := by
  unfold openFor
  split
  iterate 4 rfl
  · exact absurd rfl written
  iterate 5 rfl

theorem align_balances (written : Written) (layout : Layout) :
    Balances layout (layout.align written).1 (layout.align written).2 := by
  have closed := closeWhile_balances (fun block => decide (written.column < block.column)) layout
  unfold align
  split
  · simp only
    split
    · have separated : Balances (layout.closeWhile fun block =>
          decide (written.column < block.column)).2 [.semicolon]
          (layout.closeWhile fun block => decide (written.column < block.column)).2 := rfl
      exact closed.trans separated
    · exact closed
  · rfl

theorem meet_balances (written : Written) (layout : Layout) :
    Balances layout (layout.meet written).1 (layout.meet written).2 := by
  have pushed : ∀ (before after : Layout) (block : Block), after.blocks = block :: before.blocks →
      Balances before [.openBrace] after := by
    intro before after block found
    simp only [Balances, found, List.length_cons]
    simp
    omega
  unfold meet
  split
  · exact pushed _ _ _ rfl
  · split
    · exact align_balances written { layout with started := true }
    · simp only
      split
      · exact rfl
      · split
        · exact pushed _ _ _ rfl
        · have aligned := align_balances written { layout with started := true, opener := none }
          unfold Balances at aligned ⊢
          simp only [List.count_cons]
          simp only [beq_iff_eq, reduceCtorEq, if_false, if_true, Nat.add_zero] at aligned ⊢
          omega

def isBrace (token : Token) : Bool := token = .openBrace || token = .closeBrace

theorem pass_balances {token : Token} (written : isBrace token = false) (layout : Layout) :
    Balances layout (layout.pass token).1 (layout.pass token).2 := by
  simp only [isBrace, Bool.or_eq_false_iff, decide_eq_false_iff_not] at written
  have closed := closeFor_balances written.2 layout
  have opened := blocks_openFor written.1 (layout.closeFor token).2
  unfold Balances at closed ⊢
  simp only [pass, opened]
  exact closed

theorem step_balances {written : Written} (plain : isBrace written.token = false)
    (layout : Layout) : Balances layout (layout.step written).1 (layout.step written).2 := by
  rw [step_eq_meet]
  exact (meet_balances written layout).trans (pass_balances plain _)

theorem emit_balances {written : List Written}
    (plain : ∀ token ∈ written, isBrace token.token = false) (layout : Layout) :
    Balances layout (layout.emit written).1 (layout.emit written).2 := by
  induction written generalizing layout with
  | nil => exact rfl
  | cons token later induction =>
    rw [List.forall_mem_cons] at plain
    have stepped := step_balances plain.1 layout
    have others := induction plain.2 (layout.step token).2
    have itself : Balances (layout.step token).2 [token.token] (layout.step token).2 := by
      have known := plain.1
      simp only [isBrace, Bool.or_eq_false_iff, decide_eq_false_iff_not] at known
      simp [Balances, known.1, known.2]
    rw [emit_cons]
    exact stepped.trans (itself.trans others)

def isInLet (layout : Layout) : Bool :=
  match layout.blocks with
  | .implicit block :: _ => block.opener = .kwLet
  | _ => false

/-- `in` closes the innermost block if that is one of a `let`, and nothing else. -/
theorem pass_in (layout : Layout) :
    (layout.pass .kwIn).2 =
      { layout with blocks := layout.blocks.drop layout.isInLet.toNat } := by
  obtain ⟨blocks, opener, started, depth⟩ := layout
  cases blocks with
  | nil => rfl
  | cons block outer =>
    cases block with
    | explicit => rfl
    | implicit block =>
      by_cases isLet : block.opener = .kwLet
      · simp [pass, closeFor, openFor, isInLet, isLet]
      · simp [pass, closeFor, openFor, isInLet, isLet]

theorem length_pass_in (layout : Layout) :
    (layout.pass .kwIn).2.blocks.length + layout.isInLet.toNat = layout.blocks.length := by
  rw [pass_in, List.length_drop]
  have enough : layout.isInLet.toNat ≤ layout.blocks.length := by
    unfold isInLet
    split
    · rename_i found
      rw [found, List.length_cons]
      exact Nat.le_trans (Bool.toNat_le _) (Nat.le_add_left 1 _)
    · exact Nat.zero_le _
  omega

/-- Implicit blocks, each opened inside at least the brackets of the one around it. -/
def DepthsBelow : Nat → List Block → Prop
  | _, [] => True
  | limit, .implicit block :: outer => block.depth ≤ limit ∧ DepthsBelow block.depth outer
  | _, .explicit :: _ => False

theorem DepthsBelow.mono {blocks : List Block} {limit higher : Nat} (le : limit ≤ higher)
    (below : DepthsBelow limit blocks) : DepthsBelow higher blocks := by
  cases blocks with
  | nil => trivial
  | cons block outer =>
    cases block with
    | explicit => exact below
    | implicit block => exact ⟨Nat.le_trans below.1 le, below.2⟩

theorem DepthsBelow.outer {block : Block} {blocks : List Block} {limit : Nat}
    (below : DepthsBelow limit (block :: blocks)) : DepthsBelow limit blocks := by
  cases block with
  | explicit => exact below.elim
  | implicit block => exact below.2.mono below.1

theorem DepthsBelow.drop {blocks : List Block} {limit : Nat} (count : Nat)
    (below : DepthsBelow limit blocks) : DepthsBelow limit (blocks.drop count) := by
  induction count generalizing blocks with
  | zero => exact below
  | succ count induction =>
    cases blocks with
    | nil => trivial
    | cons block outer => exact induction below.outer

theorem DepthsBelow.split {blocks : List Block} {limit : Nat} (closes : ImplicitBlock → Bool)
    (below : DepthsBelow limit blocks) : DepthsBelow limit (splitBlocks closes blocks).2 := by
  fun_induction splitBlocks closes blocks with
  | case1 block outer holds count kept split induction =>
    rw [split] at induction
    exact induction below.outer
  | case2 block outer stays => exact below
  | case3 blocks others => exact below

/-- The blocks opened inside a bracket are those that its end closes. -/
theorem DepthsBelow.split_bracket {blocks : List Block} {depth limit : Nat}
    (below : DepthsBelow limit blocks) :
    DepthsBelow (depth - 1)
      (splitBlocks (fun block => decide (depth ≤ block.depth)) blocks).2 := by
  induction blocks generalizing limit with
  | nil => trivial
  | cons block outer induction =>
    cases block with
    | explicit => exact below.elim
    | implicit block =>
      simp only [splitBlocks]
      split
      · exact induction below.2
      · rename_i stays
        have less : ¬depth ≤ block.depth := by simpa using stays
        exact ⟨by omega, below.2⟩

/-- The blocks left open by the line of a written token. -/
def leftOnLine (written : Written) (layout : Layout) : List Block :=
  if written.firstOnLine && written.token != .endOfInput then
    (splitBlocks (fun block => decide (written.column < block.column)) layout.blocks).2
  else layout.blocks

theorem align_layout (written : Written) (layout : Layout) :
    (layout.align written).2 = { layout with blocks := layout.leftOnLine written } := by
  unfold align leftOnLine
  split
  · simp only
    split
    · rfl
    · rfl
  · rfl

theorem align_depths (written : Written) (layout : Layout)
    (below : DepthsBelow layout.depth layout.blocks) :
    DepthsBelow (layout.align written).2.depth (layout.align written).2.blocks := by
  rw [align_layout]
  unfold leftOnLine
  split
  · exact below.split _
  · exact below

theorem meet_started (written : Written) (layout : Layout) :
    (layout.meet written).2.started = true := by
  unfold meet
  split
  · rfl
  · split
    · rw [align_layout]
    · simp only
      split
      · rfl
      · split
        · rfl
        · rw [align_layout]

theorem meet_depths (written : Written) (layout : Layout)
    (below : DepthsBelow layout.depth layout.blocks) :
    DepthsBelow (layout.meet written).2.depth (layout.meet written).2.blocks := by
  unfold meet
  split
  · exact ⟨Nat.le_refl _, below⟩
  · split
    · exact align_depths written { layout with started := true } below
    · simp only
      split
      · exact below
      · split
        · exact ⟨Nat.le_refl _, below⟩
        · exact align_depths written { layout with started := true, opener := none } below

def leftInBracket (layout : Layout) : List Block :=
  if 0 < layout.depth then
    (splitBlocks (fun block => decide (layout.depth ≤ block.depth)) layout.blocks).2
  else layout.blocks

theorem closeFor_bracket {token : Token} (layout : Layout)
    (bracket : token = .closeParen ∨ token = .closeBracket ∨ token = .comma) :
    (layout.closeFor token).2 = { layout with blocks := layout.leftInBracket } := by
  have closed : (if 0 < layout.depth then
      layout.closeWhile fun block => decide (layout.depth ≤ block.depth)
      else ([], layout)).2 = { layout with blocks := layout.leftInBracket } := by
    unfold leftInBracket
    split
    · rfl
    · rfl
  rcases bracket with rfl | rfl | rfl
  · exact closed
  · exact closed
  · exact closed

theorem leftInBracket_depths {layout : Layout} (below : DepthsBelow layout.depth layout.blocks) :
    DepthsBelow (layout.depth - 1) layout.leftInBracket := by
  unfold leftInBracket
  split
  · exact below.split_bracket
  · rename_i outside
    exact below.mono (by omega)

theorem pass_depths {token : Token} {layout : Layout} (plain : isBrace token = false)
    (below : DepthsBelow layout.depth layout.blocks) :
    DepthsBelow (layout.pass token).2.depth (layout.pass token).2.blocks := by
  cases token with
  | openBrace | closeBrace => cases plain
  | openParen | openBracket => exact below.mono (Nat.le_succ _)
  | closeParen =>
    simp only [pass, closeFor_bracket layout (.inl rfl), openFor]
    exact leftInBracket_depths below
  | closeBracket =>
    simp only [pass, closeFor_bracket layout (.inr (.inl rfl)), openFor]
    exact leftInBracket_depths below
  | comma =>
    simp only [pass, closeFor_bracket layout (.inr (.inr rfl)), openFor]
    exact (leftInBracket_depths below).mono (Nat.sub_le _ _)
  | kwIn =>
    rw [pass_in]
    exact below.drop _
  | endOfInput => exact below.split _
  | _ => exact below

theorem step_depths {written : Written} {layout : Layout} (plain : isBrace written.token = false)
    (below : DepthsBelow layout.depth layout.blocks) :
    DepthsBelow (layout.step written).2.depth (layout.step written).2.blocks := by
  rw [step_eq_meet]
  exact pass_depths plain (meet_depths written layout below)

theorem emit_depths {written : List Written} {layout : Layout}
    (plain : ∀ token ∈ written, isBrace token.token = false)
    (below : DepthsBelow layout.depth layout.blocks) :
    DepthsBelow (layout.emit written).2.depth (layout.emit written).2.blocks := by
  induction written generalizing layout with
  | nil => exact below
  | cons token later induction =>
    rw [List.forall_mem_cons] at plain
    exact induction plain.2 (step_depths plain.1 below)

end Offside.Haskell.Layout
