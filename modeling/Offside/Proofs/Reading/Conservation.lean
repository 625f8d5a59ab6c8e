import Offside.Proofs.Grammar.Programs
import Offside.Proofs.Layout.Readings
import Offside.Proofs.Reading.Modules
import Mathlib.Data.List.Nodup

/-!
A text that is parsed without a report is kept whole. Each name, operator, literal and wildcard of it
stands in the tree once, at the place where it was written, and the tree has no others. Apart from
these it keeps the words that are special to imports and fixities by what they say, has a minus sign
or a dot where one is used as an operator, and has a name for each constructor written with brackets.
-/

namespace Offside

set_option autoImplicit false

open Offside.Lexical

theorem Haskell.isFirm_of_marked {found : Token × Span} {leaf : Leaf}
    (marked : Leaf.ofToken? found = some leaf) : isFirm found.1 = true := by
  apply Classical.byContradiction
  intro other
  simp only [isFirm, Layout.isAdded, Bool.and_eq_true, Bool.not_eq_true', Bool.or_eq_false_iff,
    decide_eq_false_iff_not, bne_iff_ne, not_and_or, not_not] at other
  rcases other with ((brace | brace) | semicolon) | ended
  · simp [Leaf.ofToken?, brace, Leaf.ofKind?] at marked
  · simp [Leaf.ofToken?, brace, Leaf.ofKind?] at marked
  · simp [Leaf.ofToken?, semicolon, Leaf.ofKind?] at marked
  · simp [Leaf.ofToken?, ended, Leaf.ofKind?] at marked

/-- The token that a mark stands for; for a name made of brackets, the opening one. -/
inductive Origin (texts : Position → Option Lexeme) (tokens : List (Token × Span)) :
    Mark → Token × Span → Prop
  | leaf {leaf : Leaf} {found : Token × Span} (same : Leaf.ofToken? found = some leaf) :
      Origin texts tokens (.leaf leaf) found
  | sign {found : Token × Span} (isSign : found.1 = .minus ∨ found.1 = .dot) :
      Origin texts tokens (.leaf (.name found.2)) found
  | word {word : Word} {found : Token × Span} (spelled : word.Spelled texts found) :
      Origin texts tokens (.word word) found
  | bracketed {opening closing : Token × Span} {middle : List (Token × Span)} {span : Span}
      (brackets : IsBracketed opening middle closing) (start : span.start = opening.2.start)
      (together : opening :: (middle ++ [closing]) <:+: tokens) :
      Origin texts tokens (.leaf (.name span)) opening

namespace Origin

variable {texts : Position → Option Lexeme} {tokens more : List (Token × Span)} {mark : Mark}
  {found : Token × Span}

theorem mono (origin : Origin texts tokens mark found) (inside : tokens <:+: more) :
    Origin texts more mark found := by
  cases origin with
  | leaf same => exact .leaf same
  | sign isSign => exact .sign isSign
  | word spelled => exact .word spelled
  | bracketed brackets start together => exact .bracketed brackets start (together.trans inside)

theorem firm (origin : Origin texts tokens mark found) : Haskell.isFirm found.1 = true := by
  cases origin with
  | leaf same => exact Haskell.isFirm_of_marked same
  | sign isSign =>
    rcases isSign with minus | dot
    · rw [minus]
      rfl
    · rw [dot]
      rfl
  | @word word _ spelled =>
    cases word with
    | keyword text =>
      rw [spelled.1]
      rfl
    | precedence value =>
      rw [spelled.1]
      rfl
  | bracketed brackets _ _ =>
    rcases brackets.opening with parenthesis | bracket
    · rw [parenthesis]
      rfl
    · rw [bracket]
      rfl

theorem start_eq {leaf : Leaf} (origin : Origin texts tokens (.leaf leaf) found) :
    leaf.span.start = found.2.start := by
  cases origin with
  | leaf same => rw [Leaf.span_ofToken same]
  | sign _ => rfl
  | bracketed _ start _ => exact start

/-- A token that leaves a mark of its own kind leaves no other leaf. -/
theorem leaf_eq {leaf own : Leaf} (origin : Origin texts tokens (.leaf leaf) found)
    (same : Leaf.ofToken? found = some own) : leaf = own := by
  cases origin with
  | leaf known => exact Option.some.inj (known.symm.trans same)
  | sign isSign =>
    rcases isSign with minus | dot
    · simp [Leaf.ofToken?, minus, Leaf.ofKind?] at same
    · simp [Leaf.ofToken?, dot, Leaf.ofKind?] at same
  | bracketed brackets _ _ =>
    rcases brackets.opening with parenthesis | bracket
    · simp [Leaf.ofToken?, parenthesis, Leaf.ofKind?] at same
    · simp [Leaf.ofToken?, bracket, Leaf.ofKind?] at same

end Origin

/-- Pairs of a mark and the token that it stands for, in the order of the tokens. No token that leaves
a leaf is missing. -/
structure Origins (texts : Position → Option Lexeme) (tokens : List (Token × Span))
    (pairs : List (Mark × (Token × Span))) : Prop where
  ordered : (pairs.map Prod.snd).Sublist tokens
  origin : ∀ pair ∈ pairs, Origin texts tokens pair.1 pair.2
  complete : ∀ found ∈ tokens, Leaf.ofToken? found ≠ none → found ∈ pairs.map Prod.snd

namespace Origins

variable {texts : Position → Option Lexeme} {tokens : List (Token × Span)}
  {pairs : List (Mark × (Token × Span))}

theorem skip {passed : List (Token × Span)} (later : Origins texts tokens pairs)
    (unmarked : ∀ found ∈ passed, Leaf.ofToken? found = none) :
    Origins texts (passed ++ tokens) pairs where
  ordered := later.ordered.trans (List.sublist_append_right passed tokens)
  origin := fun pair member => (later.origin pair member).mono (List.suffix_append _ _).isInfix
  complete := by
    intro found member marked
    rcases List.mem_append.1 member with before | after
    · exact absurd (unmarked found before) marked
    · exact later.complete found after marked

theorem cons {mark : Mark} {found : Token × Span} (later : Origins texts tokens pairs)
    (origin : Origin texts (found :: tokens) mark found) :
    Origins texts (found :: tokens) ((mark, found) :: pairs) where
  ordered := later.ordered.cons_cons found
  origin := List.forall_mem_cons.2 ⟨origin, fun pair member =>
    (later.origin pair member).mono (List.suffix_cons _ _).isInfix⟩
  complete := by
    intro other member marked
    rcases List.mem_cons.1 member with rfl | after
    · exact List.mem_cons_self
    · exact List.mem_cons_of_mem _ (later.complete other after marked)

end Origins

/-- By induction on how the marks are spelled. -/
theorem Spells.origins {texts : Position → Option Lexeme} {marks : List Mark}
    {tokens : List (Token × Span)} (spells : Spells texts marks tokens)
    (supported : Mark.skipped ∉ marks) :
    ∃ pairs : List (Mark × (Token × Span)), pairs.map Prod.fst = marks ∧
      Origins texts tokens pairs := by
  induction spells with
  | nil => exact ⟨[], rfl, List.Sublist.refl _, by simp, by simp⟩
  | @silent found _ _ unmarked _ induction =>
    obtain ⟨pairs, same, origins⟩ := induction supported
    have alone : ∀ other ∈ [found], Leaf.ofToken? other = none := by
      intro other member
      rw [List.mem_singleton.1 member]
      exact unmarked
    exact ⟨pairs, same, origins.skip alone⟩
  | leaf known _ induction =>
    rw [List.mem_cons, not_or] at supported
    obtain ⟨pairs, same, origins⟩ := induction supported.2
    exact ⟨_, congrArg _ same, origins.cons (.leaf known)⟩
  | sign isSign _ induction =>
    rw [List.mem_cons, not_or] at supported
    obtain ⟨pairs, same, origins⟩ := induction supported.2
    exact ⟨_, congrArg _ same, origins.cons (.sign isSign)⟩
  | word spelled _ induction =>
    rw [List.mem_cons, not_or] at supported
    obtain ⟨pairs, same, origins⟩ := induction supported.2
    exact ⟨_, congrArg _ same, origins.cons (.word spelled)⟩
  | @bracketed opening closing middle span marks tokens brackets start _ induction =>
    rw [List.mem_cons, not_or] at supported
    obtain ⟨pairs, same, origins⟩ := induction supported.2
    have rest := (origins.skip brackets.closing_unmarked).skip brackets.middle_unmarked
    refine ⟨_, congrArg _ same, rest.cons (.bracketed brackets start ?_)⟩
    exact ⟨[], tokens, by simp⟩
  | skipped _ _ => exact absurd List.mem_cons_self supported

/-- In a list of leaves that start one after another each is the only one at its place. -/
theorem Leaf.filter_span {leaves : List Leaf}
    (increasing : leaves.Pairwise fun earlier later => earlier.span.start < later.span.start)
    {leaf : Leaf} (member : leaf ∈ leaves) :
    leaves.filter (fun other => decide (other.span = leaf.span)) = [leaf] := by
  induction leaves with
  | nil => cases member
  | cons first later induction =>
    obtain ⟨before, increasing⟩ := List.pairwise_cons.1 increasing
    rcases List.mem_cons.1 member with rfl | member
    · rw [List.filter_cons_of_pos (by simp), List.filter_eq_nil_iff.2]
      intro other among same
      have apart := Position.ne_of_lt (before other among)
      rw [of_decide_eq_true same] at apart
      exact apart rfl
    · rw [List.filter_cons_of_neg, induction increasing member]
      intro same
      have apart := Position.ne_of_lt (before leaf member)
      rw [of_decide_eq_true same] at apart
      exact apart rfl

namespace Origins

variable {texts : Position → Option Lexeme} {tokens : List (Token × Span)}
  {pairs : List (Mark × (Token × Span))}

/-- Firm tokens start one after another. -/
def Increasing (tokens : List (Token × Span)) : Prop :=
  tokens.Pairwise fun earlier later =>
    Haskell.isFirm earlier.1 = true → Haskell.isFirm later.1 = true →
      earlier.2.start < later.2.start

theorem increasing (origins : Origins texts tokens pairs) (apart : Increasing tokens) :
    pairs.Pairwise fun earlier later => earlier.2.2.start < later.2.2.start := by
  have ordered := List.pairwise_map.1 (apart.sublist origins.ordered)
  apply ordered.imp_of_mem
  intro earlier later memberEarlier memberLater before
  exact before (origins.origin earlier memberEarlier).firm (origins.origin later memberLater).firm

theorem leaves_increasing (origins : Origins texts tokens pairs) (apart : Increasing tokens) :
    ((pairs.map Prod.fst).filterMap Mark.leaf?).Pairwise
      fun earlier later => earlier.span.start < later.span.start := by
  rw [List.filterMap_map, List.pairwise_filterMap]
  apply (origins.increasing apart).imp_of_mem
  rintro ⟨first, firstFound⟩ ⟨second, secondFound⟩ memberFirst memberSecond before
  intro earlier isEarlier later isLater
  have originFirst := origins.origin _ memberFirst
  have originSecond := origins.origin _ memberSecond
  rw [Mark.eq_of_leaf? isEarlier] at originFirst
  rw [Mark.eq_of_leaf? isLater] at originSecond
  rw [originFirst.start_eq, originSecond.start_eq]
  exact before

theorem unique (origins : Origins texts tokens pairs) (apart : Increasing tokens)
    {first second : Mark} {found : Token × Span} (memberFirst : (first, found) ∈ pairs)
    (memberSecond : (second, found) ∈ pairs) : first = second := by
  have nodup : (pairs.map Prod.snd).Nodup := by
    apply List.pairwise_map.2
    apply (origins.increasing apart).imp
    intro earlier later before same
    rw [same] at before
    exact Position.lt_irrefl _ before
  exact congrArg Prod.fst (List.inj_on_of_nodup_map nodup memberFirst memberSecond rfl)

def words (pairs : List (Mark × (Token × Span))) : List (Token × Span) :=
  (pairs.filter fun pair => pair.1.word?.isSome).map Prod.snd

theorem mem_words {found : Token × Span} :
    found ∈ words pairs ↔ ∃ word, (Mark.word word, found) ∈ pairs := by
  constructor
  · intro member
    obtain ⟨⟨mark, _⟩, among, rfl⟩ := List.mem_map.1 member
    obtain ⟨inside, isWord⟩ := List.mem_filter.1 among
    obtain ⟨word, known⟩ := Option.isSome_iff_exists.1 isWord
    have same : mark = .word word := Mark.eq_of_word? known
    rw [same] at inside
    exact ⟨word, inside⟩
  · rintro ⟨word, inside⟩
    exact List.mem_map.2 ⟨_, List.mem_filter.2 ⟨inside, rfl⟩, rfl⟩

theorem words_sublist (origins : Origins texts tokens pairs) : (words pairs).Sublist tokens :=
  (List.filter_sublist.map Prod.snd).trans origins.ordered

theorem words_spelled (origins : Origins texts tokens pairs) :
    List.Forall₂ (Word.Spelled texts) (words pairs)
      ((pairs.map Prod.fst).filterMap Mark.word?) := by
  have spelled := origins.origin
  clear origins
  induction pairs with
  | nil => exact .nil
  | cons pair later induction =>
    obtain ⟨mark, found⟩ := pair
    rw [List.forall_mem_cons] at spelled
    have rest := induction spelled.2
    cases mark with
    | leaf leaf => exact rest
    | skipped => exact rest
    | word word =>
      cases spelled.1 with
      | word spelled => exact .cons spelled rest

/-- A token that leaves a leaf and says no word is that leaf alone. -/
theorem leaf_once (origins : Origins texts tokens pairs) (apart : Increasing tokens)
    {found : Token × Span} {leaf : Leaf} (member : found ∈ tokens) (other : found ∉ words pairs)
    (same : Leaf.ofToken? found = some leaf) :
    ((pairs.map Prod.fst).filterMap Mark.leaf?).filter
      (fun other => decide (other.span = found.2)) = [leaf] := by
  obtain ⟨⟨mark, _⟩, inside, rfl⟩ :=
    List.mem_map.1 (origins.complete found member (by simp [same]))
  have origin := origins.origin _ inside
  cases mark with
  | word word => exact absurd (mem_words.2 ⟨word, inside⟩) other
  | skipped => cases origin
  | leaf own =>
    have known := origin.leaf_eq same
    subst known
    rw [← Leaf.span_ofToken same]
    apply Leaf.filter_span (origins.leaves_increasing apart)
    exact List.mem_filterMap.2 ⟨_, List.mem_map.2 ⟨_, inside, rfl⟩, rfl⟩

/-- A leaf of a tree stands for such a token, for a sign used as an operator, or for brackets. -/
theorem leaf_origin (origins : Origins texts tokens pairs) (apart : Increasing tokens)
    {leaf : Leaf} (member : leaf ∈ (pairs.map Prod.fst).filterMap Mark.leaf?) :
    ∃ found ∈ tokens, found ∉ words pairs ∧ Origin texts tokens (.leaf leaf) found := by
  obtain ⟨mark, among, known⟩ := List.mem_filterMap.1 member
  obtain ⟨⟨_, found⟩, inside, rfl⟩ := List.mem_map.1 among
  rw [show (_, found) = (Mark.leaf leaf, found) from
    Prod.ext (Mark.eq_of_leaf? known) rfl] at inside
  refine ⟨found, ?_, ?_, origins.origin _ inside⟩
  · exact origins.ordered.subset (List.mem_map.2 ⟨_, inside, rfl⟩)
  · intro isWord
    obtain ⟨word, other⟩ := mem_words.1 isWord
    cases origins.unique apart inside other

end Origins

/-- A tree keeps the tokens of a text: all but the words, which it keeps by what they say, are the one
leaf at their place where their kind leaves a leaf, and each leaf stands for a token. -/
structure Program.Keeps (texts : Position → Option Lexeme) (tokens words : List (Token × Span))
    (program : Program) : Prop where
  ordered : words.Sublist tokens
  spelled : List.Forall₂ (Word.Spelled texts) words program.words
  once : ∀ found ∈ tokens, found ∉ words → ∀ leaf ∈ Leaf.ofToken? found,
    program.leaves.filter (fun other => decide (other.span = found.2)) = [leaf]
  others : ∀ leaf ∈ program.leaves,
    ∃ found ∈ tokens, found ∉ words ∧ Origin texts tokens (.leaf leaf) found

theorem Spells.keeps {texts : Position → Option Lexeme} {tokens : List (Token × Span)}
    {program : Program} (spells : Spells texts program.marks tokens)
    (supported : Mark.skipped ∉ program.marks) (apart : Origins.Increasing tokens) :
    ∃ words, program.Keeps texts tokens words := by
  obtain ⟨pairs, same, origins⟩ := spells.origins supported
  refine ⟨Origins.words pairs, ?_⟩
  have leaves : program.leaves = (pairs.map Prod.fst).filterMap Mark.leaf? := by
    rw [same]
    rfl
  have words : program.words = (pairs.map Prod.fst).filterMap Mark.word? := by
    rw [same]
    rfl
  exact
    { ordered := origins.words_sublist
      spelled := by
        rw [words]
        exact origins.words_spelled
      once := fun found member other leaf known => by
        rw [leaves]
        exact origins.leaf_once apart member other known
      others := fun leaf member => by
        rw [leaves] at member
        exact origins.leaf_origin apart member }

namespace Haskell

open Offside.Parser

variable {file : FileId} {stream : TokenStream} {context : Context} {program : Program}

theorem start_steady (settled : TokenStream.Settled stream.items) (context : Context) :
    (Parser.start stream context).Steady (context.absorbAll stream.items).lexemeAt := by
  have pulled := pullFrom_pulled stream context
  exact
    { texts := pulled.texts
      ahead := pulled.settled settled
      buffered := by simp [Parser.start]
      input := settled.sublist pulled.suffix.sublist }

/-- The end of a parse of one file that reported nothing is clean. -/
theorem parseTokens_clean (within : stream.Within (· = file))
    (silent : (parseTokens stream context).2.context.diagnostics = #[]) :
    (parseTokens stream context).2.Clean := by
  have run := parseTokens_run within context
  exact
    { diagnostics := silent
      unreported := run.reportedAt_eq silent
      unharmed := run.fault_of_single }

/-- The tree of a parse that reported nothing spells the tokens that were passed. -/
theorem parseTokens_spells (within : stream.Within (· = file))
    (settled : TokenStream.Settled stream.items)
    (parsed : (parseTokens stream context).1 = some program)
    (silent : (parseTokens stream context).2.context.diagnostics = #[]) :
    Spells (context.absorbAll stream.items).lexemeAt program.marks stream.inner := by
  have clean := parseTokens_clean within silent
  have ended := (rest_eq_nil_iff _).2 (parseTokens_ends within context).2.1
  have inside : (Parser.start stream context).isAtEnd = false := by
    cases atEnd : (Parser.start stream context).isAtEnd with
    | false => rfl
    | true =>
      rw [parseTokens_of_ended atEnd] at parsed
      cases parsed
  rw [parseTokens_program inside] at parsed
  rw [parseTokens_final inside] at clean ended
  obtain ⟨_, passed, read, rest, spells, whole⟩ :=
    (Grammar.program_reads (Parser.start stream context) (start_steady settled context)).2 clean
  rw [Option.some.inj parsed, List.nil_append] at whole
  rw [ended, List.append_nil, rest_start] at rest
  rw [whole, rest]
  exact spells

/-- All that is shown of a text but the end of input has to be passed. -/
theorem visible_split (file : FileId) (source : List Char) :
    ∃ place, (reader.stream file source).visible =
      (reader.stream file source).inner ++ [(.endOfInput, place)] := by
  obtain ⟨inner, final, split, ended, others⟩ :=
    Reader.items_split (reader.start source)
  have isEnd : final.token = .endOfInput := by simpa [Lexed.isFinal] using ended
  let front := (inner.filter fun item => !item.isComment).map fun item => (item.token, item.span)
  have shown : (reader.stream file source).visible = front ++ [(.endOfInput, final.span)] := by
    have items : (reader.stream file source).items = inner ++ [final] := split
    rw [TokenStream.visible, items, List.filter_append, List.map_append,
      List.filter_cons_of_pos (by simp [Lexed.isComment, isEnd])]
    simp [front, isEnd]
  have passed : ∀ found ∈ front, isInner found.1 = true := by
    intro found member
    obtain ⟨item, among, rfl⟩ := List.mem_map.1 member
    simpa [isInner, Lexed.isFinal] using others item (List.mem_of_mem_filter among)
  refine ⟨final.span, ?_⟩
  rw [TokenStream.inner, shown, List.takeWhile_append_of_pos passed]
  simp [isInner]

theorem parseText_eq_some {source : List Char}
    (parsed : (parseText source context).1 = some program) :
    (parseTokens (reader.stream context.file source) context).1 = some program ∧
      (parseText source context).2.diagnostics =
        (parseTokens (reader.stream context.file source) context).2.context.diagnostics := by
  simp only [parseText] at parsed ⊢
  split at parsed
  · cases parsed
  · rename_i found
    rw [found]
    exact ⟨parsed, rfl⟩

theorem parsing_keeps_every_token {source : List Char}
    (parsed : (parseText source context).1 = some program)
    (silent : (parseText source context).2.diagnostics = #[])
    (supported : Mark.skipped ∉ program.marks) :
    ∃ words, program.Keeps (context.lex .haskell source).2.lexemeAt
      (reader.stream context.file source).visible words := by
  obtain ⟨found, same⟩ := parseText_eq_some parsed
  rw [same] at silent
  have spells := parseTokens_spells (stream_within context.file source)
    (stream_settled context.file source) found silent
  obtain ⟨place, split⟩ := visible_split context.file source
  have ending : Spells (context.lex .haskell source).2.lexemeAt [] [(.endOfInput, place)] :=
    .silent rfl .nil
  have whole := spells.append ending
  rw [List.append_nil, ← split] at whole
  exact whole.keeps supported (visible_increasing context.file source)

/-- A text with a minus sign as an operator and a constructor made of brackets. -/
def keptText : List Char :=
  "import A.B (x)\ninfixl +++\nf _ (Just y) = (,) y 'c' - 1.5\n".toList

theorem parsing_keeps_kept_text :
    ∃ program words, (parseText keptText {}).1 = some program ∧
      (parseText keptText {}).2.diagnostics = #[] ∧ Mark.skipped ∉ program.marks ∧
      program.leaves.map (fun leaf => (leaf.span.start.line, leaf.span.start.column)) =
        [(0, 7), (0, 9), (0, 12), (1, 7), (2, 0), (2, 2), (2, 5), (2, 10), (2, 15), (2, 19),
         (2, 21), (2, 25), (2, 27)] ∧
      program.Keeps ((({} : Context).lex .haskell keptText).2.lexemeAt)
        (reader.stream .single keptText).visible words := by
  have silent : (parseText keptText {}).2.diagnostics = #[] := by decide +kernel
  have places : (parseText keptText {}).1.map (fun program => (
      decide (Mark.skipped ∈ program.marks),
      program.leaves.map fun leaf => (leaf.span.start.line, leaf.span.start.column))) =
      some (false,
        [(0, 7), (0, 9), (0, 12), (1, 7), (2, 0), (2, 2), (2, 5), (2, 10), (2, 15), (2, 19),
         (2, 21), (2, 25), (2, 27)]) := by decide +kernel
  obtain ⟨program, parsed, known⟩ := Option.map_eq_some_iff.1 places
  obtain ⟨supported, leaves⟩ := Prod.mk.inj known
  have supported : Mark.skipped ∉ program.marks := of_decide_eq_false supported
  obtain ⟨words, keeps⟩ := parsing_keeps_every_token parsed silent supported
  exact ⟨program, words, parsed, silent, supported, leaves, keeps⟩

end Haskell

end Offside
