import Offside.Proofs.Layout.Blocks

/-!
The blocks of `let`. An `in` looks at the innermost block only. So it leaves the block of its `let`
open while another stands inside it, and closes the block of an outer `let` once its own is closed.
Neither can happen where nothing but `let` opens blocks and the `let` is not directly in the block of
another: what is open after the `let` is then open again after its `in`.
-/

namespace Offside.Haskell

set_option autoImplicit false

namespace Layout

/-- Blocks that `let` opened, at most some number of them, over others. -/
inductive LetsOver (base : List Block) : Nat → List Block → Prop
  | base (count : Nat) : LetsOver base count base
  | opened {count : Nat} {blocks : List Block} (block : ImplicitBlock)
      (isLet : block.opener = .kwLet) (inner : LetsOver base count blocks) :
      LetsOver base (count + 1) (.implicit block :: blocks)

namespace LetsOver

variable {base blocks : List Block} {count : Nat}

theorem more (above : LetsOver base count blocks) : LetsOver base (count + 1) blocks := by
  induction above with
  | base count => exact .base (count + 1)
  | opened block isLet inner induction => exact .opened block isLet induction

theorem eq_base (above : LetsOver base 0 blocks) : blocks = base := by
  cases above
  rfl

/-- Closing blocks leaves the ones below alone if it stops at them. -/
theorem split {closes : ImplicitBlock → Bool} (stops : (splitBlocks closes base).2 = base)
    (above : LetsOver base count blocks) : LetsOver base count (splitBlocks closes blocks).2 := by
  induction above with
  | base count =>
    rw [stops]
    exact .base count
  | opened block isLet inner induction =>
    simp only [splitBlocks]
    split
    · exact induction.more
    · exact .opened block isLet inner

end LetsOver

theorem split_stops {closes : ImplicitBlock → Bool} {base : List Block}
    (stays : ∀ block outer, base = .implicit block :: outer → closes block = false) :
    (splitBlocks closes base).2 = base := by
  cases base with
  | nil => rfl
  | cons block outer =>
    cases block with
    | explicit => rfl
    | implicit block =>
      simp only [splitBlocks, stays block outer rfl]
      rfl

variable {layout opened : Layout} {lets brackets : Nat}

/-- `in` closes a block of `let` if one is open over blocks of which the innermost is none. -/
theorem pass_in_over {count : Nat} (outside : opened.isInLet = false)
    (above : LetsOver opened.blocks (count + 1) layout.blocks) :
    LetsOver opened.blocks count (layout.pass .kwIn).2.blocks := by
  rw [pass_in]
  obtain ⟨blocks, opener, started, depth⟩ := layout
  cases above with
  | base =>
    have innermost : (⟨opened.blocks, opener, started, depth⟩ : Layout).isInLet = false := outside
    rw [innermost]
    exact .base count
  | opened block isLet inner =>
    simp only [isInLet, isLet, decide_true]
    exact inner

/-- The `let` without their `in` after a token, unless it is an `in` without its `let`. -/
def letsAfter (lets : Nat) (token : Token) : Option Nat :=
  match token, lets with
  | .kwLet, lets => some (lets + 1)
  | .kwIn, 0 => none
  | .kwIn, lets + 1 => some lets
  | _, lets => some lets

def bracketsAfter (brackets : Nat) (token : Token) : Option Nat :=
  match token, brackets with
  | .openParen, brackets | .openBracket, brackets => some (brackets + 1)
  | .closeParen, 0 | .closeBracket, 0 | .comma, 0 => none
  | .closeParen, brackets + 1 | .closeBracket, brackets + 1 => some brackets
  | _, brackets => some brackets

/-- Every block that the token opens is one of `let`, and it closes none but as a bracket does. -/
def opensOnlyLet (token : Token) : Bool :=
  !isBrace token && token != .kwWhere && token != .kwDo && token != .kwOf && token != .endOfInput

/-- A written token that starts no line at or left of the innermost block. -/
def isIndented (layout : Layout) (written : Written) : Bool :=
  !written.firstOnLine || layout.innermostColumn.all (· < written.column)

/-- A layout after a `let`: some more `let` are read, some more brackets are open, and the blocks of
these `let` and of no others are open over those that were. -/
structure Since (opened : Layout) (lets brackets : Nat) (layout : Layout) : Prop where
  started : layout.started = true
  depth : layout.depth = opened.depth + brackets
  blocks : match layout.opener with
    | none => LetsOver opened.blocks (lets + 1) layout.blocks
    | some opener => opener = .kwLet ∧ LetsOver opened.blocks lets layout.blocks

namespace Since

theorem above (since : Since opened lets brackets layout) (idle : layout.opener = none) :
    LetsOver opened.blocks (lets + 1) layout.blocks := by
  have blocks := since.blocks
  rw [idle] at blocks
  exact blocks

theorem of_idle (started : layout.started = true) (depth : layout.depth = opened.depth + brackets)
    (idle : layout.opener = none) (above : LetsOver opened.blocks (lets + 1) layout.blocks) :
    Since opened lets brackets layout := by
  refine ⟨started, depth, ?_⟩
  rw [idle]
  exact above

theorem leave (since : Since opened lets (brackets + 1) layout) :
    Since opened lets brackets { layout with depth := layout.depth - 1 } := by
  refine ⟨since.started, ?_, since.blocks⟩
  have depth := since.depth
  simp only
  omega

end Since

theorem leftOnLine_over {written : Written} {count : Nat}
    (indented : opened.isIndented written = true)
    (above : LetsOver opened.blocks count layout.blocks) :
    LetsOver opened.blocks count (layout.leftOnLine written) := by
  unfold leftOnLine
  split
  · rename_i first
    apply above.split
    apply split_stops
    intro block outer found
    rw [Bool.and_eq_true] at first
    simp only [isIndented, first.1, innermostColumn, found, Option.all_some] at indented
    simp at indented
    simpa using Nat.le_of_lt indented
  · exact above

theorem leftInBracket_over {count brackets : Nat} (below : DepthsBelow opened.depth opened.blocks)
    (depth : layout.depth = opened.depth + brackets) (inner : 0 < brackets)
    (above : LetsOver opened.blocks count layout.blocks) :
    LetsOver opened.blocks count layout.leftInBracket := by
  unfold leftInBracket
  split
  · apply above.split
    apply split_stops
    intro block outer found
    rw [found] at below
    have shallow := below.1
    simp only [decide_eq_false_iff_not]
    omega
  · exact above

theorem meet_since {written : Written} (indented : opened.isIndented written = true)
    (plain : isBrace written.token = false) (since : Since opened lets brackets layout) :
    Since opened lets brackets (layout.meet written).2 ∧ (layout.meet written).2.opener = none := by
  obtain ⟨blocks, opener, started, depth⟩ := layout
  obtain ⟨rfl, same, above⟩ := since
  unfold meet
  simp only [Bool.not_true, Bool.false_and, Bool.false_eq_true, if_false]
  cases opener with
  | none =>
    rw [align_layout]
    exact ⟨⟨rfl, same, leftOnLine_over indented above⟩, rfl⟩
  | some opener =>
    obtain ⟨rfl, above⟩ := above
    have written : written.token ≠ .openBrace := by
      intro brace
      simp [isBrace, brace] at plain
    simp only [if_neg written]
    split
    · exact ⟨⟨rfl, same, .opened _ rfl above⟩, rfl⟩
    · rw [align_layout]
      exact ⟨⟨rfl, same, leftOnLine_over indented above.more⟩, rfl⟩

/-- A bracket opened after the `let` closes no block from before it. -/
theorem closeFor_since {token : Token} (below : DepthsBelow opened.depth opened.blocks)
    (bracket : token = .closeParen ∨ token = .closeBracket ∨ token = .comma)
    (idle : layout.opener = none) (since : Since opened lets (brackets + 1) layout) :
    Since opened lets (brackets + 1) (layout.closeFor token).2 := by
  have above := leftInBracket_over below since.depth (Nat.succ_pos brackets) (since.above idle)
  rw [closeFor_bracket layout bracket]
  exact .of_idle since.started since.depth idle above

theorem pass_since {token : Token} {lets brackets letsThen inThen : Nat}
    (below : DepthsBelow opened.depth opened.blocks) (outside : opened.isInLet = false)
    (since : Since opened lets brackets layout) (idle : layout.opener = none)
    (onlyLet : opensOnlyLet token = true) (counted : letsAfter lets token = some letsThen)
    (enclosed : bracketsAfter brackets token = some inThen) :
    Since opened letsThen inThen (layout.pass token).2 := by
  cases token with
  | openBrace | closeBrace | endOfInput | kwWhere | kwDo | kwOf => cases onlyLet
  | kwLet =>
    cases counted
    cases enclosed
    exact ⟨since.started, since.depth, rfl, since.above idle⟩
  | kwIn =>
    cases lets with
    | zero => cases counted
    | succ lets =>
      cases counted
      cases enclosed
      have closed := pass_in_over outside (since.above idle)
      rw [pass_in] at closed ⊢
      exact .of_idle since.started since.depth idle closed
  | openParen | openBracket =>
    cases counted
    cases enclosed
    exact ⟨since.started, congrArg (· + 1) since.depth, since.blocks⟩
  | closeParen =>
    cases brackets with
    | zero => cases enclosed
    | succ brackets =>
      cases counted
      cases enclosed
      exact (closeFor_since below (.inl rfl) idle since).leave
  | closeBracket =>
    cases brackets with
    | zero => cases enclosed
    | succ brackets =>
      cases counted
      cases enclosed
      exact (closeFor_since below (.inr (.inl rfl)) idle since).leave
  | comma =>
    cases brackets with
    | zero => cases enclosed
    | succ brackets =>
      cases counted
      cases enclosed
      exact closeFor_since below (.inr (.inr rfl)) idle since
  | _ =>
    cases counted
    cases enclosed
    exact since

theorem step_since {written : Written} {lets brackets letsThen inThen : Nat}
    (below : DepthsBelow opened.depth opened.blocks) (outside : opened.isInLet = false)
    (since : Since opened lets brackets layout) (indented : opened.isIndented written = true)
    (onlyLet : opensOnlyLet written.token = true)
    (counted : letsAfter lets written.token = some letsThen)
    (enclosed : bracketsAfter brackets written.token = some inThen) :
    Since opened letsThen inThen (layout.step written).2 := by
  have plain : isBrace written.token = false := by
    simp only [opensOnlyLet, Bool.and_eq_true] at onlyLet
    simpa using onlyLet.1.1.1.1
  obtain ⟨met, idle⟩ := meet_since indented plain since
  rw [step_eq_meet]
  exact pass_since below outside met idle onlyLet counted enclosed

theorem emit_since {between : List Written} (below : DepthsBelow opened.depth opened.blocks)
    (outside : opened.isInLet = false) (since : Since opened lets brackets layout)
    (indented : ∀ written ∈ between, opened.isIndented written = true)
    (onlyLet : ∀ written ∈ between, opensOnlyLet written.token = true) {letsThen inThen : Nat}
    (counted : (between.map Written.token).foldlM letsAfter lets = some letsThen)
    (enclosed : (between.map Written.token).foldlM bracketsAfter brackets = some inThen) :
    Since opened letsThen inThen (layout.emit between).2 := by
  induction between generalizing layout lets brackets with
  | nil =>
    cases counted
    cases enclosed
    exact since
  | cons written later induction =>
    rw [List.forall_mem_cons] at indented onlyLet
    rw [List.map_cons, List.foldlM_cons] at counted enclosed
    obtain ⟨letsNow, first, counted⟩ := Option.bind_eq_some_iff.1 counted
    obtain ⟨inNow, second, enclosed⟩ := Option.bind_eq_some_iff.1 enclosed
    have stepped := step_since below outside since indented.1 onlyLet.1 first second
    exact induction stepped indented.2 onlyLet.2 counted enclosed

theorem step_let {opening : Written} (layout : Layout) (isLet : opening.token = .kwLet) :
    Since (layout.step opening).2 0 0 (layout.step opening).2 := by
  rw [step_eq_meet, isLet]
  exact ⟨meet_started opening layout, rfl, rfl, .base 0⟩

end Layout

open Offside.Lexical Layout

/-- The `let` and `in` of written tokens match like brackets. -/
def areMatched (tokens : List Written) : Bool :=
  (tokens.map Written.token).foldlM letsAfter 0 = some 0

/-- Written tokens end no bracket that they do not open and hold no comma outside brackets. -/
def areEnclosed (tokens : List Written) : Bool :=
  ((tokens.map Written.token).foldlM bracketsAfter 0).isSome

/-- A `let` of a text without written braces and the `in` that matches it. -/
structure LetIn (file : FileId) (source : List Char) where
  before : List Written
  opening : Written
  between : List Written
  closing : Written
  after : List Written
  split : writtenTokens file source = before ++ opening :: (between ++ closing :: after)
  plain : ∀ written ∈ before ++ opening :: (between ++ closing :: after),
    isBrace written.token = false
  isLet : opening.token = .kwLet
  isIn : closing.token = .kwIn
  matched : areMatched between = true

namespace LetIn

variable {file : FileId} {source : List Char} (pair : LetIn file source)

def ahead : List Token :=
  (Layout.emit {} pair.before).1 ++ ((Layout.emit {} pair.before).2.step pair.opening).1

def opened : Layout :=
  ((Layout.emit {} pair.before).2.step pair.opening).2

def reached : Layout := (pair.opened.emit pair.between).2

def inside : List Token :=
  (pair.opened.emit pair.between).1 ++ (pair.reached.step pair.closing).1

/-- The layout as the `in` is met. -/
def met : Layout := (pair.reached.meet pair.closing).2

def closed : Layout := (pair.reached.step pair.closing).2

theorem stream_eq :
    (reader.stream file source).visible.map Prod.fst =
      pair.ahead ++ .kwLet :: (pair.inside ++ .kwIn :: (pair.closed.emit pair.after).1) := by
  rw [stream_tokens, pair.split, emit_append, emit_cons, emit_append, emit_cons, pair.isLet,
    pair.isIn]
  simp only [ahead, inside, closed, reached, opened, List.append_assoc]

theorem plain_between : ∀ written ∈ pair.between, isBrace written.token = false := by
  intro written member
  apply pair.plain
  simp [member]

theorem plain_closing : isBrace pair.closing.token = false := by
  rw [pair.isIn]
  rfl

theorem between_inner : ∀ written ∈ pair.between, written.token ≠ .endOfInput := by
  obtain ⟨inner, final, split, ended, others⟩ := Lexer.written_split file (Lexer.start source)
  have whole : (pair.before ++ pair.opening :: pair.between) ++ pair.closing :: pair.after =
      inner ++ [final] := by
    rw [← split, List.append_assoc]
    exact pair.split.symm
  have shorter : (pair.before ++ pair.opening :: pair.between).length ≤ inner.length := by
    have length := congrArg List.length whole
    simp only [List.length_append, List.length_cons, List.length_nil] at length ⊢
    omega
  have initial := List.prefix_of_prefix_length_le (List.prefix_append _ _)
    (whole ▸ List.prefix_append inner [final]) shorter
  intro written member
  apply others
  apply initial.subset
  simp [member]

theorem inside_balances : Balances pair.opened pair.inside pair.closed :=
  (emit_balances pair.plain_between pair.opened).trans (step_balances pair.plain_closing _)

theorem length_closed :
    pair.closed.blocks.length + pair.met.isInLet.toNat = pair.met.blocks.length := by
  rw [closed, step_eq_meet, pair.isIn]
  exact length_pass_in pair.met

theorem opened_depths : DepthsBelow pair.opened.depth pair.opened.blocks := by
  have plain : ∀ written ∈ pair.before, isBrace written.token = false := by
    intro written member
    apply pair.plain
    simp [member]
  apply step_depths
  · rw [pair.isLet]
    rfl
  · exact emit_depths plain trivial

/-- Nothing but `let` opens blocks between the two. -/
def HoldsOnlyLets : Prop :=
  ∀ written ∈ pair.between, written.token ∉ [.kwWhere, .kwDo, .kwOf]

/-- No line starts at or left of the block around the `let`, up to the `in`. -/
def IsIndented : Prop :=
  ∀ written ∈ pair.between ++ [pair.closing], pair.opened.isIndented written = true

instance (pair : LetIn file source) : Decidable pair.HoldsOnlyLets :=
  inferInstanceAs (Decidable (∀ written ∈ pair.between, _))

instance (pair : LetIn file source) : Decidable pair.IsIndented :=
  inferInstanceAs (Decidable (∀ written ∈ pair.between ++ [pair.closing], _))

theorem opensOnlyLet_between (onlyLets : pair.HoldsOnlyLets) :
    ∀ written ∈ pair.between, opensOnlyLet written.token = true := by
  intro written member
  have plain := pair.plain_between written member
  have inner := pair.between_inner written member
  have others := onlyLets written member
  simp only [List.mem_cons, List.not_mem_nil, or_false, not_or] at others
  simp [opensOnlyLet, plain, inner, others]

/-- As the `in` is met, at most the block of its own `let` is open over those from before. -/
theorem met_over (outside : pair.opened.isInLet = false) (onlyLets : pair.HoldsOnlyLets)
    (indented : pair.IsIndented) (enclosed : areEnclosed pair.between = true) :
    LetsOver pair.opened.blocks 1 pair.met.blocks := by
  obtain ⟨brackets, found⟩ := Option.isSome_iff_exists.1 enclosed
  have counted : (pair.between.map Written.token).foldlM letsAfter 0 = some 0 := by
    simpa [areMatched] using pair.matched
  have started : Since pair.opened 0 0 pair.opened := step_let _ pair.isLet
  have indentedBetween : ∀ written ∈ pair.between, pair.opened.isIndented written = true := by
    intro written member
    exact indented written (List.mem_append_left _ member)
  have reached := emit_since pair.opened_depths outside started indentedBetween
    (pair.opensOnlyLet_between onlyLets) counted found
  have indentedClosing := indented pair.closing (by simp)
  obtain ⟨met, idle⟩ := meet_since indentedClosing pair.plain_closing reached
  exact met.above idle

theorem closed_blocks (outside : pair.opened.isInLet = false) (onlyLets : pair.HoldsOnlyLets)
    (indented : pair.IsIndented) (enclosed : areEnclosed pair.between = true) :
    pair.closed.blocks = pair.opened.blocks := by
  have above := pass_in_over outside (pair.met_over outside onlyLets indented enclosed)
  rw [closed, step_eq_meet, pair.isIn]
  exact above.eq_base

theorem balanced_iff :
    pair.inside.count .openBrace = pair.inside.count .closeBrace ↔
      (pair.met.isInLet = true ∧ pair.met.blocks.length = pair.opened.blocks.length + 1) ∨
        (pair.met.isInLet = false ∧ pair.met.blocks.length = pair.opened.blocks.length) := by
  have braces := pair.inside_balances
  have length := pair.length_closed
  unfold Balances at braces
  cases innermost : pair.met.isInLet with
  | false =>
    rw [innermost] at length
    simp only [Bool.toNat_false] at length
    simp
    omega
  | true =>
    rw [innermost] at length
    simp only [Bool.toNat_true] at length
    simp
    omega

end LetIn

/-- What is handed out between a `let` and its `in` has as many opening as closing braces exactly when,
as the `in` is met, one block more is open than after the `let` and the innermost is of a `let`, or as
many are open and the innermost is of none. Where only `let` opens blocks up to the `in` and the `let`
does not stand directly in the block of another, the very blocks from before are left open. -/
theorem let_in_balanced_iff {file : FileId} {source : List Char} (pair : LetIn file source) :
    (reader.stream file source).visible.map Prod.fst =
        pair.ahead ++ .kwLet :: (pair.inside ++ .kwIn :: (pair.closed.emit pair.after).1) ∧
      (pair.inside.count .openBrace = pair.inside.count .closeBrace ↔
        (pair.met.isInLet = true ∧ pair.met.blocks.length = pair.opened.blocks.length + 1) ∨
          (pair.met.isInLet = false ∧ pair.met.blocks.length = pair.opened.blocks.length)) ∧
      (pair.IsIndented → areEnclosed pair.between = true → pair.HoldsOnlyLets →
        pair.opened.isInLet = false →
        pair.closed.blocks = pair.opened.blocks ∧
          pair.inside.count .openBrace = pair.inside.count .closeBrace) := by
  refine ⟨pair.stream_eq, pair.balanced_iff, ?_⟩
  intro indented enclosed onlyLets outside
  have same := pair.closed_blocks outside onlyLets indented enclosed
  have braces := pair.inside_balances
  rw [Balances, same] at braces
  exact ⟨same, by omega⟩

deriving instance DecidableEq for Written

def Written.onLine (line column width : Nat) (token : Token) (firstOnLine : Bool) : Written :=
  ⟨token, ⟨.single, ⟨line, column⟩, ⟨line, column + width⟩⟩, column, firstOnLine⟩

def nestedPair : LetIn .single "x = let y = let z = 1 in z in y".toList where
  before := [.onLine 0 0 1 .identifier true, .onLine 0 2 1 .equals false]
  opening := .onLine 0 4 3 .kwLet false
  between :=
    [.onLine 0 8 1 .identifier false, .onLine 0 10 1 .equals false, .onLine 0 12 3 .kwLet false,
      .onLine 0 16 1 .identifier false, .onLine 0 18 1 .equals false, .onLine 0 20 1 .integer false,
      .onLine 0 22 2 .kwIn false, .onLine 0 25 1 .identifier false]
  closing := .onLine 0 27 2 .kwIn false
  after := [.onLine 0 30 1 .identifier false, .onLine 0 31 0 .endOfInput false]
  split := by decide +kernel
  plain := by decide
  isLet := rfl
  isIn := rfl
  matched := by decide

theorem nested_lets_balanced :
    nestedPair.IsIndented ∧ areEnclosed nestedPair.between = true ∧ nestedPair.HoldsOnlyLets ∧
      nestedPair.opened.isInLet = false ∧ nestedPair.closed.blocks = nestedPair.opened.blocks ∧
        nestedPair.inside.count .openBrace = nestedPair.inside.count .closeBrace :=
  have indented : nestedPair.IsIndented := by decide
  have enclosed : areEnclosed nestedPair.between = true := by decide
  have onlyLets : nestedPair.HoldsOnlyLets := by decide
  have outside : nestedPair.opened.isInLet = false := by decide
  ⟨indented, enclosed, onlyLets, outside,
    (let_in_balanced_iff nestedPair).2.2 indented enclosed onlyLets outside⟩

def casePair : LetIn .single "x = let y = case z of w -> 1 in y".toList where
  before := [.onLine 0 0 1 .identifier true, .onLine 0 2 1 .equals false]
  opening := .onLine 0 4 3 .kwLet false
  between :=
    [.onLine 0 8 1 .identifier false, .onLine 0 10 1 .equals false, .onLine 0 12 4 .kwCase false,
      .onLine 0 17 1 .identifier false, .onLine 0 19 2 .kwOf false,
      .onLine 0 22 1 .identifier false, .onLine 0 24 2 .arrow false, .onLine 0 27 1 .integer false]
  closing := .onLine 0 29 2 .kwIn false
  after := [.onLine 0 32 1 .identifier false, .onLine 0 33 0 .endOfInput false]
  split := by decide +kernel
  plain := by decide
  isLet := rfl
  isIn := rfl
  matched := by decide

def innerPair : LetIn .single "x = let y = let z = 1\n             in z\n     in y".toList where
  before :=
    [.onLine 0 0 1 .identifier true, .onLine 0 2 1 .equals false, .onLine 0 4 3 .kwLet false,
      .onLine 0 8 1 .identifier false, .onLine 0 10 1 .equals false]
  opening := .onLine 0 12 3 .kwLet false
  between :=
    [.onLine 0 16 1 .identifier false, .onLine 0 18 1 .equals false, .onLine 0 20 1 .integer false]
  closing := .onLine 1 13 2 .kwIn true
  after :=
    [.onLine 1 16 1 .identifier false, .onLine 2 5 2 .kwIn true, .onLine 2 8 1 .identifier false,
      .onLine 2 9 0 .endOfInput false]
  split := by decide +kernel
  plain := by decide
  isLet := rfl
  isIn := rfl
  matched := by decide

/-- A block of `of` that is still open keeps the `in` from closing that of its `let`, and where a line
has closed the block of the `let`, its `in` closes that of another. -/
theorem let_in_unbalanced :
    (areMatched (writtenTokens .single "x = let y = case z of w -> 1 in y".toList) = true ∧
      casePair.IsIndented ∧ areEnclosed casePair.between = true ∧
        casePair.inside.count .openBrace = 2 ∧ casePair.inside.count .closeBrace = 0) ∧
      areMatched (writtenTokens .single
        "x = let y = let z = 1\n             in z\n     in y".toList) = true ∧
      innerPair.IsIndented ∧ areEnclosed innerPair.between = true ∧
        innerPair.inside.count .openBrace = 1 ∧ innerPair.inside.count .closeBrace = 2 := by
  rw [casePair.split, innerPair.split]
  decide

end Offside.Haskell
