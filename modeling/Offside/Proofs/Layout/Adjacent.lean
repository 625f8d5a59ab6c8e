import Offside.Proofs.Layout.Braced

/-!
Which tokens may stand next to each other. Behind an opening brace, written or added, layout adds no
separator and opens no further block, and behind a semicolon it opens none. So the first token of a
block item that is more than the end of the block has been written.
-/

namespace Offside.Haskell

set_option autoImplicit false

namespace Layout

/-- Layout may add the second of two tokens behind the first. -/
def Admits (before added : Token) : Prop :=
  (before = .openBrace → added ≠ .openBrace ∧ added ≠ .semicolon) ∧
    (before = .semicolon → added ≠ .openBrace)

theorem admits_closing (before : Token) : Admits before .closeBrace := by
  simp [Admits]

theorem closing_admits (added : Token) : Admits .closeBrace added := by
  simp [Admits]

def AreClosing (tokens : List Token) : Prop := ∀ token ∈ tokens, token = .closeBrace

theorem chain_append_closing {front closing : List Token} (chained : front.IsChain Admits)
    (closes : AreClosing closing) : (front ++ closing).IsChain Admits := by
  have chain : closing.IsChain Admits := by
    rw [List.eq_replicate_of_mem closes]
    exact List.isChain_replicate_of_rel _ (admits_closing _)
  refine List.isChain_append.2 ⟨chained, chain, ?_⟩
  intro last _ first found
  rw [closes first (List.mem_of_mem_head? found)]
  exact admits_closing last

theorem closeWhile_closing (closes : ImplicitBlock → Bool) (layout : Layout) :
    AreClosing (layout.closeWhile closes).1 :=
  fun _ member => List.eq_of_mem_replicate member

theorem pass_closing (token : Token) (layout : Layout) : AreClosing (layout.pass token).1 := by
  have none : AreClosing [] := by simp [AreClosing]
  simp only [pass]
  unfold closeFor
  split
  · split
    · split
      · simp [AreClosing]
      · exact none
    · exact none
  iterate 3
    · split
      · exact closeWhile_closing _ layout
      · exact none
  · split
    · exact closeWhile_closing _ layout
    · exact none
  · exact closeWhile_closing _ layout
  · exact none

/-- A line separates no items where no implicit block is the innermost one. -/
theorem align_of_outside {layout : Layout} (outside : layout.innermostColumn = none)
    (written : Written) : (layout.align written).1 = [] := by
  have kept : ∀ closes, splitBlocks closes layout.blocks = (0, layout.blocks) := by
    intro closes
    unfold innermostColumn at outside
    split at outside
    · cases outside
    · rename_i other
      rw [splitBlocks.eq_def]
      split
      · rename_i block outer found
        exact absurd found (other block outer)
      · rfl
  unfold align closeWhile
  split
  · simp [kept, outside]
  · rfl

theorem align_chain {last : Token} {layout : Layout}
    (outside : last = .openBrace → layout.innermostColumn = none) (written : Written) :
    (last :: (layout.align written).1).IsChain Admits := by
  by_cases opening : last = .openBrace
  · rw [align_of_outside (outside opening)]
    exact List.isChain_singleton last
  · have closing := closeWhile_closing (fun block => decide (written.column < block.column)) layout
    have closed := chain_append_closing (List.isChain_singleton last) closing
    have added : ∀ token ∈ [last] ++
        (layout.closeWhile fun block => decide (written.column < block.column)).1,
        Admits token .semicolon := by
      intro token member
      rcases List.mem_append.1 member with first | later
      · rw [List.mem_singleton.1 first]
        simp [Admits, opening]
      · rw [closing token later]
        exact closing_admits _
    unfold align
    split
    · simp only
      split
      · rw [← List.cons_append]
        refine List.isChain_append.2 ⟨closed, List.isChain_singleton _, ?_⟩
        intro token found first same
        rw [List.head?_singleton, Option.mem_some_iff] at same
        rw [← same]
        exact added token (List.mem_of_mem_getLast? found)
      · exact closed
    · exact List.isChain_singleton last

/-- The layout behind a token: no block is to be opened behind an opening brace or a semicolon, and no
implicit block is the innermost one behind an opening brace. -/
structure Behind (last : Token) (layout : Layout) : Prop where
  idle : layout.Idle
  plain : layout.started = false ∨ layout.opener ≠ none → last ≠ .openBrace ∧ last ≠ .semicolon
  outside : last = .openBrace → layout.innermostColumn = none

theorem meet_chain {last : Token} {layout : Layout} (behind : layout.Behind last)
    (written : Written) : (last :: (layout.meet written).1).IsChain Admits := by
  have opening : layout.started = false ∨ layout.opener ≠ none →
      (last :: [Token.openBrace]).IsChain Admits := by
    intro opens
    obtain ⟨brace, semicolon⟩ := behind.plain opens
    exact List.isChain_cons_cons.2 ⟨by simp [Admits, brace, semicolon], List.isChain_singleton _⟩
  unfold meet
  split
  · rename_i first
    exact opening (Or.inl (by simp at first; exact first.1))
  · split
    · have outside : last = .openBrace →
          ({ layout with started := true } : Layout).innermostColumn = none := behind.outside
      exact align_chain outside written
    · rename_i opener found
      have opens := opening (Or.inr (by simp [found]))
      simp only
      split
      · exact List.isChain_singleton last
      · split
        · exact opens
        · have aligned : (Token.closeBrace ::
              (({ layout with started := true, opener := none } : Layout).align written).1).IsChain
                Admits := align_chain (by simp) written
          rw [List.isChain_cons_cons] at opens ⊢
          exact ⟨opens.1, List.isChain_cons_cons.2 ⟨admits_closing _, aligned⟩⟩

theorem step_chain {last : Token} {layout : Layout} (behind : layout.Behind last)
    (written : Written) : (last :: (layout.step written).1).IsChain Admits := by
  rw [step_eq_meet]
  exact chain_append_closing (meet_chain behind written) (pass_closing _ _)

theorem step_behind {layout : Layout} (idle : layout.Idle) (written : Written) :
    (layout.step written).2.Behind written.token where
  idle := fun fresh => by
    rw [step_started] at fresh
    cases fresh
  plain := by
    rw [step_started, step_opener written idle]
    intro opens
    constructor <;> rintro token <;> simp [token, announced] at opens
  outside := by
    intro opening
    rw [step_eq_meet, opening]
    rfl

/-- The second of two tokens was written, or layout may have added it behind the first. -/
def Adjoins (before after : Token × Span) : Prop :=
  after.2.isPoint = true → Admits before.1 after.1

theorem adjoins_written {written : Written}
    (wide : written.span.isPoint = (written.token == .endOfInput)) (before : Token × Span) :
    Adjoins before written.located := by
  intro point
  have ended : written.token = .endOfInput := by
    rw [show written.located.2 = written.span from rfl, wide] at point
    simpa using point
  simp [Written.located, ended, Admits]

theorem spread_chain {tokens : List Written} (wide : Written.AreWide tokens)
    (uncommented : ∀ written ∈ tokens, written.token ≠ .comment) {last : Token × Span}
    {layout : Layout} (behind : layout.Behind last.1) :
    (last :: layout.spread tokens).IsChain Adjoins := by
  induction tokens generalizing last layout with
  | nil => exact List.isChain_singleton last
  | cons written later induction =>
    rw [Written.areWide_cons] at wide
    rw [List.forall_mem_cons] at uncommented
    have kinds : ((last :: (layout.step written).1.map (·, written.span.atStart)).map
        Prod.fst).IsChain Admits := by
      simpa [Function.comp_def] using step_chain behind written
    have added : (last :: (layout.step written).1.map (·, written.span.atStart)).IsChain Adjoins :=
      ((List.isChain_map Prod.fst).1 kinds).imp fun _ _ admits _ => admits
    have itself : (last :: ((layout.step written).1.map (·, written.span.atStart) ++
        [written.located])).IsChain Adjoins := by
      rw [← List.cons_append]
      refine List.isChain_append.2 ⟨added, List.isChain_singleton _, ?_⟩
      intro before _ first same
      rw [List.head?_singleton, Option.mem_some_iff] at same
      rw [← same]
      exact adjoins_written wide.1 before
    have others := @induction wide.2 uncommented.2 written.located _
      (step_behind behind.idle written)
    rw [spread_of_written uncommented.1]
    exact List.isChain_cons_split.2 ⟨itself, others⟩

end Layout

theorem writtenTokens_uncommented (file : FileId) (source : List Char) :
    ∀ written ∈ writtenTokens file source, written.token ≠ .comment := by
  intro written member
  rw [writtenTokens, Lexer.written_eq_filter] at member
  simpa using (List.mem_filter.1 member).2

/-- Every token that a text shows adjoins the one in front of it. -/
theorem visible_chain (file : FileId) (source : List Char) :
    (reader.stream file source).visible.IsChain Layout.Adjoins := by
  have nothing : ({} : Layout).Behind .comma :=
    ⟨fun _ => rfl, fun _ => by decide, fun opening => by cases opening⟩
  have behind := @Layout.spread_chain _ (writtenTokens_wide file source)
    (writtenTokens_uncommented file source) (.comma, .zero) {} nothing
  rw [stream_visible]
  exact behind.tail

end Offside.Haskell
