import Offside.Diagnostic
import Offside.Token

/-!
The offside rule. Blocks may be delimited by indentation instead of braces; layout adds the braces and
semicolons that indentation stands for, as tokens of zero width in front of the written token that
calls for them.

A block opens at the first token of a text, unless that is `module` or a brace, and at the token after
`where`, `let`, `do` and `of`, unless that is a brace; a block that would not be indented deeper than
the one around it is empty. The first token of a line closes every block indented deeper than it and
separates the items of the block aligned with it. `in` closes the block of its `let`, a closing
bracket or a comma the blocks opened inside the bracket, a written closing brace the blocks opened
inside its own, and the end of the text all of them.
-/

namespace Offside.Haskell

set_option autoImplicit false

structure Written where
  token : Token
  span : Span
  /-- Its column with tabs expanded. -/
  column : Nat
  /-- No other token of the text starts on its line before it. -/
  firstOnLine : Bool

structure ImplicitBlock where
  column : Nat
  /-- The keyword before the block, `where` for the block of a whole text. -/
  opener : Token
  /-- Parentheses and brackets open around the block. -/
  depth : Nat
deriving DecidableEq

inductive Block where
  | implicit (block : ImplicitBlock)
  | explicit
deriving DecidableEq

structure Layout where
  /-- The open blocks, innermost first. -/
  blocks : List Block := []
  /-- The keyword just read after which a block opens. -/
  opener : Option Token := none
  started : Bool := false
  /-- Parentheses and brackets open. -/
  depth : Nat := 0

namespace Layout

def innermostColumn (layout : Layout) : Option Nat :=
  match layout.blocks with
  | .implicit block :: _ => some block.column
  | _ => none

/-- The implicit blocks from the innermost on that a test holds for, counted, and those left. -/
def splitBlocks (closes : ImplicitBlock → Bool) : List Block → Nat × List Block
  | .implicit block :: outer =>
      if closes block then
        let (count, kept) := splitBlocks closes outer
        (count + 1, kept)
      else (0, .implicit block :: outer)
  | blocks => (0, blocks)

def closeWhile (closes : ImplicitBlock → Bool) (layout : Layout) : List Token × Layout :=
  let (count, kept) := splitBlocks closes layout.blocks
  (List.replicate count .closeBrace, { layout with blocks := kept })

def dropExplicit : List Block → List Block
  | .explicit :: outer => outer
  | blocks => blocks

/-- The blocks that a token closes by what it is, wherever it stands. -/
def closeFor (token : Token) (layout : Layout) : List Token × Layout :=
  match token with
  | .kwIn =>
      match layout.blocks with
      | .implicit block :: outer =>
          if block.opener = .kwLet then ([.closeBrace], { layout with blocks := outer })
          else ([], layout)
      | _ => ([], layout)
  | .closeParen | .closeBracket | .comma =>
      if 0 < layout.depth then
        layout.closeWhile fun block => decide (layout.depth ≤ block.depth)
      else ([], layout)
  | .closeBrace =>
      if layout.blocks.contains .explicit then
        let (added, layout) := layout.closeWhile fun _ => true
        (added, { layout with blocks := dropExplicit layout.blocks })
      else ([], layout)
  | .endOfInput => layout.closeWhile fun _ => true
  | _ => ([], layout)

def openFor (token : Token) (layout : Layout) : Layout :=
  match token with
  | .openParen | .openBracket => { layout with depth := layout.depth + 1 }
  | .closeParen | .closeBracket => { layout with depth := layout.depth - 1 }
  | .openBrace => { layout with blocks := .explicit :: layout.blocks }
  | .kwWhere | .kwLet | .kwDo | .kwOf => { layout with opener := some token }
  | _ => layout

/-- The tokens added in front of a written token by what it is, and the layout after it. -/
def pass (token : Token) (layout : Layout) : List Token × Layout :=
  let (added, layout) := layout.closeFor token
  (added, layout.openFor token)

def openBlock (written : Written) (opener : Token) (layout : Layout) : List Token × Layout :=
  let block : ImplicitBlock := ⟨written.column, opener, layout.depth⟩
  let (added, layout) :=
    { layout with blocks := .implicit block :: layout.blocks }.pass written.token
  (.openBrace :: added, layout)

/-- Closes the blocks indented deeper than a line and separates its items from those before. -/
def align (written : Written) (layout : Layout) : List Token × Layout :=
  if written.firstOnLine && written.token != .endOfInput then
    let (closed, layout) := layout.closeWhile fun block => decide (written.column < block.column)
    if layout.innermostColumn = some written.column then (closed ++ [.semicolon], layout)
    else (closed, layout)
  else ([], layout)

def continueBlock (written : Written) (layout : Layout) : List Token × Layout :=
  let (aligned, layout) := layout.align written
  let (added, layout) := layout.pass written.token
  (aligned ++ added, layout)

/-- The block after a keyword, which the next written token opens, writes out or leaves empty. -/
def startBlock (written : Written) (opener : Token) (layout : Layout) : List Token × Layout :=
  if written.token = .openBrace then layout.pass written.token
  else if written.token ≠ .endOfInput ∧ layout.innermostColumn.all (· < written.column) then
    layout.openBlock written opener
  else
    let (added, layout) := layout.continueBlock written
    (.openBrace :: .closeBrace :: added, layout)

def opensText (token : Token) : Bool :=
  token != .kwModule && token != .openBrace && token != .endOfInput

def step (written : Written) (layout : Layout) : List Token × Layout :=
  if !layout.started && opensText written.token then
    { layout with started := true }.openBlock written .kwWhere
  else
    match layout.opener with
    | some opener =>
        { layout with started := true, opener := none }.startBlock written opener
    | none => { layout with started := true }.continueBlock written

/-- Tokens that the layout may still add without another written token. -/
def burden (layout : Layout) : Nat := layout.blocks.length + 2 * layout.opener.isSome.toNat

theorem splitBlocks_length (closes : ImplicitBlock → Bool) (blocks : List Block) :
    (splitBlocks closes blocks).1 + (splitBlocks closes blocks).2.length = blocks.length := by
  fun_induction splitBlocks closes blocks with
  | case1 block outer holds count kept split ih =>
      simp only [split] at ih
      simp only [List.length_cons]
      omega
  | case2 => simp
  | case3 => simp

theorem closeWhile_burden (closes : ImplicitBlock → Bool) (layout : Layout) :
    (layout.closeWhile closes).1.length + (layout.closeWhile closes).2.burden =
      layout.burden := by
  have := splitBlocks_length closes layout.blocks
  simp only [closeWhile, List.length_replicate, burden]
  omega

theorem dropExplicit_length_le (blocks : List Block) :
    (dropExplicit blocks).length ≤ blocks.length := by
  unfold dropExplicit
  split <;> simp

theorem closeFor_burden (token : Token) (layout : Layout) :
    (layout.closeFor token).1.length + (layout.closeFor token).2.burden ≤ layout.burden := by
  unfold closeFor
  split
  · split
    · rename_i found
      split
      · simp [burden, found]
        omega
      · simp
    · simp
  iterate 3
    split
    · exact Nat.le_of_eq (closeWhile_burden _ layout)
    · simp
  · split
    · have closed := closeWhile_burden (fun _ => true) layout
      have fewer := dropExplicit_length_le (layout.closeWhile fun _ => true).2.blocks
      simp only [burden] at closed ⊢
      omega
    · simp
  · exact Nat.le_of_eq (closeWhile_burden _ layout)
  · simp

theorem openFor_burden (token : Token) (layout : Layout) :
    (layout.openFor token).burden ≤ layout.burden + 2 := by
  unfold burden
  cases token <;>
    simp only [openFor, List.length_cons, Option.isSome_some, Bool.toNat_true] <;>
    omega

theorem pass_burden (token : Token) (layout : Layout) :
    (layout.pass token).1.length + (layout.pass token).2.burden ≤ layout.burden + 2 := by
  have closed := closeFor_burden token layout
  have opened := openFor_burden token (layout.closeFor token).2
  simp only [pass]
  omega

theorem pass_endOfInput_burden (layout : Layout) :
    (layout.pass .endOfInput).1.length + (layout.pass .endOfInput).2.burden ≤ layout.burden :=
  closeFor_burden .endOfInput layout

theorem openBlock_burden (written : Written) (opener : Token) (layout : Layout) :
    (layout.openBlock written opener).1.length + (layout.openBlock written opener).2.burden ≤
      layout.burden + 4 := by
  have passed := pass_burden written.token
    { layout with blocks := .implicit ⟨written.column, opener, layout.depth⟩ :: layout.blocks }
  simp only [openBlock, List.length_cons]
  simp only [burden, List.length_cons] at passed ⊢
  omega

theorem align_burden (written : Written) (layout : Layout) :
    (layout.align written).1.length + (layout.align written).2.burden ≤ layout.burden + 1 := by
  have closed := closeWhile_burden (fun block => decide (written.column < block.column)) layout
  unfold align
  split
  · simp only
    split
    · simp only [List.length_append, List.length_singleton]
      omega
    · simp only
      omega
  · simp

theorem align_endOfInput (written : Written) (layout : Layout)
    (final : written.token = .endOfInput) : layout.align written = ([], layout) := by
  simp [align, final]

theorem continueBlock_burden (written : Written) (layout : Layout) :
    (layout.continueBlock written).1.length + (layout.continueBlock written).2.burden ≤
      layout.burden + 3 := by
  have aligned := align_burden written layout
  have passed := pass_burden written.token (layout.align written).2
  simp only [continueBlock, List.length_append]
  omega

theorem continueBlock_endOfInput_burden (written : Written) (layout : Layout)
    (final : written.token = .endOfInput) :
    (layout.continueBlock written).1.length + (layout.continueBlock written).2.burden ≤
      layout.burden := by
  have passed := pass_endOfInput_burden layout
  simp only [continueBlock, align_endOfInput written layout final, final, List.nil_append]
  exact passed

/-- Reading a token adds at most four to what the layout may still add. -/
theorem step_burden (written : Written) (layout : Layout) :
    (layout.step written).1.length + (layout.step written).2.burden ≤ layout.burden + 4 := by
  unfold step
  split
  · exact openBlock_burden written .kwWhere { layout with started := true }
  · split
    · rename_i opener found
      have before : layout.burden =
          ({ layout with started := true, opener := none } : Layout).burden + 2 := by
        simp [burden, found]
      rw [before]
      generalize ({ layout with started := true, opener := none } : Layout) = opened
      unfold startBlock
      split
      · exact Nat.le_trans (pass_burden _ _) (by omega)
      · split
        · exact Nat.le_trans (openBlock_burden _ _ _) (by omega)
        · have continued := continueBlock_burden written opened
          simp only [List.length_cons]
          omega
    · exact Nat.le_trans (continueBlock_burden written { layout with started := true })
        (by simp [burden])

/-- The end of input adds only what was open before it. -/
theorem step_endOfInput_burden (written : Written) (layout : Layout)
    (final : written.token = .endOfInput) :
    (layout.step written).1.length + (layout.step written).2.burden ≤ layout.burden := by
  unfold step
  split
  · rename_i opens
    simp [opensText, final] at opens
  · split
    · rename_i opener found
      have before : layout.burden =
          ({ layout with started := true, opener := none } : Layout).burden + 2 := by
        simp [burden, found]
      rw [before]
      generalize ({ layout with started := true, opener := none } : Layout) = opened
      have continued := continueBlock_endOfInput_burden written opened final
      simp only [startBlock, final, reduceCtorEq, if_false, ne_eq, not_true_eq_false, false_and,
        List.length_cons]
      omega
    · exact continueBlock_endOfInput_burden written { layout with started := true } final

end Layout

end Offside.Haskell
