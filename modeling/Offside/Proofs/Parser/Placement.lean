import Mathlib.Data.List.GetD
import Mathlib.Tactic.Order
import Offside.Proofs.Layout.Adjacent
import Offside.Proofs.Lexical.Tiling
import Offside.Proofs.Parser.Lookahead

/-!
Where a parser stands in a text. The tokens of a text come in its order and do not overlap, so the last
token that was consumed ends before the lookahead starts. A parser only goes forward: what it has
consumed never ends before a token that was consumed earlier, and a token that once was the lookahead
is either still ahead or covered by what was consumed since, unless it has no width.
-/

namespace Offside

set_option autoImplicit false

open Offside.Lexical Offside.Haskell

namespace Position

instance : LinearOrder Position where
  le_refl := le_refl
  le_trans _ _ _ := le_trans
  le_antisymm _ _ := le_antisymm
  le_total := le_total
  lt_iff_le_not_ge earlier later := by
    rw [lt_def, le_def, le_def]
    omega
  toDecidableLE := fun earlier later => inferInstance

theorem origin_le (place : Position) : origin ≤ place := by
  rw [le_def]
  simp only [origin]
  omega

end Position

/-- Tokens of one file in the order of its text. A token with a spelling of its own has a width, and
one without stands where layout may have put it. -/
structure Orderly (file : FileId) (shown : Stream' (Token × Span)) : Prop where
  file : ∀ place, (shown.get place).2.file = file
  forward : ∀ place, (shown.get place).2.start ≤ (shown.get place).2.stop
  ordered : ∀ earlier later, earlier < later →
    (shown.get earlier).2.stop ≤ (shown.get later).2.start
  wide : ∀ place, isFirm (shown.get place).1 = true → (shown.get place).2.isPoint = false
  adjoins : ∀ place, Layout.Adjoins (shown.get place) (shown.get (place + 1))

theorem Orderly.tail {file : FileId} {found : Token × Span} {shown : Stream' (Token × Span)}
    (orderly : Orderly file (Stream'.cons found shown)) : Orderly file shown where
  file := fun place => orderly.file (place + 1)
  forward := fun place => orderly.forward (place + 1)
  ordered := fun earlier later before => orderly.ordered (earlier + 1) (later + 1) (by omega)
  wide := fun place => orderly.wide (place + 1)
  adjoins := fun place => orderly.adjoins (place + 1)

section Shown

variable {file : FileId}

theorem get_shows (stream : TokenStream) (place : Nat) :
    stream.shows.get place = stream.visible.getD place (.endOfInput, stream.finish) := by
  unfold TokenStream.shows
  by_cases inside : place < stream.visible.length
  · rw [Stream'.get_append_left _ _ _ inside, List.getD_eq_getElem _ _ inside]
  · obtain ⟨further, rfl⟩ := Nat.exists_eq_add_of_le (Nat.le_of_not_lt inside)
    rw [Stream'.get_append_right, Stream'.get_const, List.getD_eq_default _ _ (Nat.le_add_right _ _)]

/-- What a stream shows is orderly if its tokens are, up to its end. -/
theorem orderly_shows {stream : TokenStream} (within : stream.Within (· = file))
    (forward : ∀ found ∈ stream.visible, found.2.start ≤ found.2.stop)
    (ordered : stream.visible.Pairwise fun earlier later => earlier.2.stop ≤ later.2.start)
    (wide : ∀ found ∈ stream.visible, isFirm found.1 = true → found.2.isPoint = false)
    (adjoins : stream.visible.IsChain Layout.Adjoins)
    (finished : ∀ found ∈ stream.visible, found.2.stop ≤ stream.finish.start)
    (point : stream.finish.start = stream.finish.stop) : Orderly file stream.shows := by
  have shown : ∀ place, stream.shows.get place ∈ stream.visible ∨
      stream.shows.get place = (.endOfInput, stream.finish) := by
    intro place
    rw [get_shows]
    by_cases inside : place < stream.visible.length
    · rw [List.getD_eq_getElem _ _ inside]
      exact Or.inl (List.getElem_mem inside)
    · rw [List.getD_eq_default _ _ (Nat.le_of_not_lt inside)]
      exact Or.inr rfl
  constructor
  · intro place
    rcases shown place with member | ended
    · obtain ⟨item, among, same⟩ := List.mem_map.1 member
      rw [← same]
      exact within.items item (List.mem_of_mem_filter among)
    · rw [ended]
      exact within.finish
  · intro place
    rcases shown place with member | ended
    · exact forward _ member
    · rw [ended]
      exact le_of_eq point
  · intro earlier later before
    by_cases inside : later < stream.visible.length
    · rw [get_shows, get_shows, List.getD_eq_getElem _ _ inside,
        List.getD_eq_getElem _ _ (Nat.lt_trans before inside)]
      exact List.pairwise_iff_getElem.1 ordered earlier later _ inside before
    · rw [get_shows stream later, List.getD_eq_default _ _ (Nat.le_of_not_lt inside)]
      rcases shown earlier with member | ended
      · exact finished _ member
      · rw [ended]
        exact ge_of_eq point
  · intro place firm
    rcases shown place with member | ended
    · exact wide _ member firm
    · rw [ended] at firm
      cases firm
  · intro place
    by_cases inside : place + 1 < stream.visible.length
    · rw [get_shows, get_shows, List.getD_eq_getElem _ _ inside,
        List.getD_eq_getElem _ _ (Nat.lt_of_succ_lt inside)]
      exact List.isChain_iff_getElem.1 adjoins place inside
    · rw [get_shows stream (place + 1), List.getD_eq_default _ _ (Nat.le_of_not_lt inside)]
      exact fun _ => by simp [Layout.Admits]

/-- The tokens of a text are orderly, and so is the end of input that follows for ever. -/
theorem shows_orderly (file : FileId) (source : List Char) :
    Orderly file (reader.stream file source).shows := by
  have tiles := Haskell.stream_tiles file source
  obtain ⟨inner, final, split, -, -⟩ := Reader.items_split (reader.start source)
  have items : (reader.stream file source).items = inner ++ [final] := split
  have finish : (reader.stream file source).finish =
      Span.point final.span.stop final.span.file := by
    change TokenStream.finishOf (reader.items file (reader.start source)) = _
    rw [split, TokenStream.finishOf, List.getLast?_append_cons]
    rfl
  have bounds : ∀ item ∈ (reader.stream file source).items,
      item.span.start ≤ item.span.stop :=
    fun item member => (tiles.bounds _ (List.mem_map_of_mem member)).2
  have ordered := List.pairwise_map.1 tiles.ordered
  have ends : ∀ item ∈ (reader.stream file source).items,
      item.span.stop ≤ final.span.stop := by
    rw [items] at ordered bounds ⊢
    intro item member
    rcases List.mem_append.1 member with front | last
    · have before := (List.pairwise_append.1 ordered).2.2 item front final (by simp)
      exact le_trans before (bounds final (by simp))
    · rw [List.mem_singleton.1 last]
  have member : ∀ found ∈ (reader.stream file source).visible,
      ∃ item ∈ (reader.stream file source).items, item.span = found.2 := by
    intro found shown
    obtain ⟨item, among, rfl⟩ := List.mem_map.1 shown
    exact ⟨item, List.mem_of_mem_filter among, rfl⟩
  apply orderly_shows (Haskell.stream_within file source)
  · intro found shown
    obtain ⟨item, among, same⟩ := member found shown
    rw [← same]
    exact bounds item among
  · exact (ordered.filter _).map _ fun _ _ before => before
  · intro found shown firm
    rw [stream_visible] at shown
    have points := Layout.spread_points (writtenTokens_wide file source) {} found shown
    rw [← Bool.not_eq_true]
    intro point
    rcases points point with added | ended
    · simp [isFirm, added] at firm
    · simp [isFirm, ended] at firm
  · exact visible_chain file source
  · intro found shown
    obtain ⟨item, among, same⟩ := member found shown
    rw [finish, ← same]
    exact ends item among
  · rw [finish]
    rfl

end Shown

namespace Parser

/-- A parser stands behind what it has consumed, in orderly tokens. -/
structure Tidy (file : FileId) (parser : Parser) : Prop where
  upcoming : Orderly file parser.upcoming
  behind : parser.previous.stop ≤ parser.aheadSpan.start

structure Advances (file : FileId) (before after : Parser) : Prop where
  start : before.aheadSpan.start ≤ after.aheadSpan.start
  stop : before.aheadSpan.stop ≤ after.aheadSpan.stop
  previous : after.previous = before.previous ∨
    (after.previous.file = file ∧ before.aheadSpan.stop ≤ after.previous.stop)

/-- A span was the lookahead once: nothing wide was consumed since, or it is covered. -/
structure Since (file : FileId) (origin : Span) (parser : Parser) : Prop where
  sameFile : origin.file = file
  start : origin.start ≤ parser.aheadSpan.start
  stop : origin.stop ≤ parser.aheadSpan.stop
  reached : parser.previous.stop ≤ origin.start ∨
    (parser.previous.file = file ∧ origin.stop ≤ parser.previous.stop)

variable {file : FileId} {before middle after parser : Parser} {passed : List (Token × Span)}

theorem previous_consume (parser : Parser) :
    parser.consume.previous =
      if parser.aheadSpan.isPoint then parser.previous else parser.aheadSpan := by
  unfold Parser.consume
  cases parser.buffered with
  | nil => rfl
  | cons next later => rfl

namespace Tidy

theorem file_ahead (tidy : parser.Tidy file) : parser.aheadSpan.file = file :=
  tidy.upcoming.file 0

theorem forward (tidy : parser.Tidy file) : parser.aheadSpan.start ≤ parser.aheadSpan.stop :=
  tidy.upcoming.forward 0

theorem wide (tidy : parser.Tidy file) (firm : isFirm parser.ahead = true) :
    parser.aheadSpan.isPoint = false :=
  tidy.upcoming.wide 0 firm

theorem since (tidy : parser.Tidy file) : parser.Since file parser.aheadSpan where
  sameFile := tidy.file_ahead
  start := le_refl _
  stop := le_refl _
  reached := Or.inl tidy.behind

theorem next (tidy : parser.Tidy file) :
    parser.aheadSpan.stop ≤ parser.consume.aheadSpan.start ∧
      Layout.Adjoins (parser.ahead, parser.aheadSpan)
        (parser.consume.ahead, parser.consume.aheadSpan) := by
  have ordered := tidy.upcoming.ordered 0 1 Nat.one_pos
  have adjoins := tidy.upcoming.adjoins 0
  rw [upcoming_consume] at ordered adjoins
  exact ⟨ordered, adjoins⟩

theorem consume (tidy : parser.Tidy file) : parser.consume.Tidy file where
  upcoming := by
    have orderly := tidy.upcoming
    rw [upcoming_consume] at orderly
    exact orderly.tail
  behind := by
    have forward := tidy.forward
    have behind := tidy.behind
    have next := tidy.next.1
    rw [previous_consume]
    split
    · order
    · exact next

theorem of_same (tidy : before.Tidy file) (upcoming : after.upcoming = before.upcoming)
    (previous : after.previous = before.previous) : after.Tidy file where
  upcoming := upcoming ▸ tidy.upcoming
  behind := by
    have ahead : after.aheadSpan = before.aheadSpan :=
      congrArg (fun shown : Stream' (Token × Span) => shown.head.2) upcoming
    rw [previous, ahead]
    exact tidy.behind

end Tidy

namespace Advances

theorem of_same (ahead : after.aheadSpan = before.aheadSpan)
    (previous : after.previous = before.previous) : Advances file before after :=
  ⟨by rw [ahead], by rw [ahead], Or.inl previous⟩

theorem refl (parser : Parser) : Advances file parser parser := of_same rfl rfl

theorem trans (first : Advances file before middle) (second : Advances file middle after) :
    Advances file before after where
  start := le_trans first.start second.start
  stop := le_trans first.stop second.stop
  previous := by
    rcases second.previous with same | ⟨own, passed⟩
    · rw [same]
      exact first.previous
    · exact Or.inr ⟨own, le_trans first.stop passed⟩

theorem consume (tidy : parser.Tidy file) : Advances file parser parser.consume := by
  have forward := tidy.forward
  have next := tidy.next.1
  have further := tidy.consume.forward
  refine ⟨by order, by order, ?_⟩
  rw [previous_consume]
  split
  · exact Or.inl rfl
  · exact Or.inr ⟨tidy.file_ahead, le_refl _⟩

theorem since (advances : Advances file before after) {origin : Span}
    (since : before.Since file origin) : after.Since file origin where
  sameFile := since.sameFile
  start := le_trans since.start advances.start
  stop := le_trans since.stop advances.stop
  reached := by
    rcases advances.previous with same | ⟨own, passed⟩
    · rw [same]
      exact since.reached
    · exact Or.inr ⟨own, le_trans since.stop passed⟩

theorem behind (advances : Advances file before after) (tidy : before.Tidy file) :
    before.previous.stop ≤ after.previous.stop := by
  have forward := tidy.forward
  have behind := tidy.behind
  rcases advances.previous with same | ⟨-, passed⟩
  · rw [same]
  · order

theorem file_previous (advances : Advances file before after)
    (own : before.previous.file = file) : after.previous.file = file := by
  rcases advances.previous with same | ⟨further, -⟩
  · rw [same]
    exact own
  · exact further

end Advances

/-- A parser stays tidy and advances, whatever is done with it. -/
theorem Passes.tidy (passes : Passes before passed after) (tidy : before.Tidy file) :
    after.Tidy file ∧ Advances file before after := by
  induction passes with
  | refl parser => exact ⟨tidy, .refl parser⟩
  | trans _ _ first second =>
    obtain ⟨tidyMiddle, advances⟩ := first tidy
    obtain ⟨tidyAfter, goesOn⟩ := second tidyMiddle
    exact ⟨tidyAfter, advances.trans goesOn⟩
  | consume parser => exact ⟨tidy.consume, .consume tidy⟩
  | putBy _ => exact ⟨tidy.of_same (upcoming_fill _) rfl, .of_same rfl rfl⟩
  | aside context depth reportedAt fault => exact ⟨tidy.of_same rfl rfl, .of_same rfl rfl⟩

theorem Leads.tidy {files : FileId → Prop} (leads : Leads files before after)
    (tidy : before.Tidy file) : after.Tidy file ∧ Advances file before after := by
  obtain ⟨passed, run⟩ := leads
  exact (Passes.of_run run).tidy tidy

theorem Passes.covered (passes : Passes before passed after) (tidy : before.Tidy file) :
    ∀ found ∈ passed, found.2.isPoint = false →
      after.previous.file = file ∧ found.2.stop ≤ after.previous.stop := by
  induction passes with
  | refl parser => simp
  | trans first second early late =>
    obtain ⟨tidyMiddle, -⟩ := first.tidy tidy
    obtain ⟨-, goesOn⟩ := second.tidy tidyMiddle
    intro found member wide
    rcases List.mem_append.1 member with before | behind
    · obtain ⟨own, covered⟩ := early tidy found before wide
      exact ⟨goesOn.file_previous own, le_trans covered (goesOn.behind tidyMiddle)⟩
    · exact late tidyMiddle found behind wide
  | consume parser =>
    intro found member wide
    rw [List.mem_singleton.1 member] at wide ⊢
    rw [previous_consume, if_neg (by simp [wide])]
    exact ⟨tidy.file_ahead, le_refl _⟩
  | putBy _ => simp
  | aside context depth reportedAt fault => simp

theorem Passes.ahead_le (passes : Passes before passed after) (tidy : before.Tidy file) :
    ∀ found ∈ passed, before.aheadSpan.start ≤ found.2.start ∧ found.2.start ≤ found.2.stop := by
  intro found member
  obtain ⟨place, inside, rfl⟩ := List.getElem_of_mem member
  have shown : before.upcoming.get place = passed[place] := by
    rw [passes.upcoming]
    exact Stream'.get_append_left _ _ _ inside
  rw [← shown]
  refine ⟨?_, tidy.upcoming.forward place⟩
  cases place with
  | zero => exact le_refl _
  | succ place => exact le_trans tidy.forward (tidy.upcoming.ordered 0 _ place.succ_pos)

theorem tidy_start (source : List Char) (context : Context) :
    (start (reader.stream file source) context).Tidy file where
  upcoming := by
    rw [upcoming_start]
    exact shows_orderly file source
  behind := Position.origin_le _

/-- A span that was the lookahead once begins what was consumed since. -/
theorem Since.spanFrom {origin : Span} (since : parser.Since file origin)
    (passed : origin.start < parser.previous.stop) :
    parser.spanFrom origin = origin.through parser.previous := by
  have reached : parser.previous.file = file ∧ origin.stop ≤ parser.previous.stop :=
    since.reached.resolve_left (not_le_of_gt passed)
  exact if_pos ⟨reached.1.trans since.sameFile.symm, reached.2⟩

/-- A state in which an item of a block may start: what layout adds there only ends the block. -/
def Fresh (parser : Parser) : Prop :=
  parser.aheadSpan.isPoint = true → parser.ahead = .closeBrace ∨ parser.ahead = .endOfInput

/-- A lookahead without a width was added or is the end of input. -/
theorem Tidy.not_firm (tidy : parser.Tidy file) (point : parser.aheadSpan.isPoint = true) :
    isFirm parser.ahead = false := by
  cases firm : isFirm parser.ahead with
  | false => rfl
  | true =>
    rw [tidy.wide firm] at point
    cases point

theorem ends_of_not_firm {token : Token} (loose : isFirm token = false)
    (brace : token ≠ .openBrace) (semicolon : token ≠ .semicolon) :
    token = .closeBrace ∨ token = .endOfInput := by
  simp only [isFirm, Layout.isAdded, Bool.and_eq_false_iff, Bool.not_eq_false', Bool.or_eq_true,
    decide_eq_true_eq, bne_eq_false_iff_eq, brace, semicolon, false_or, or_false] at loose
  exact loose

/-- Behind an opening brace nothing is added that begins an item. -/
theorem Tidy.fresh_consume (tidy : parser.Tidy file) (opening : parser.ahead = .openBrace) :
    parser.consume.Fresh := by
  intro point
  obtain ⟨brace, semicolon⟩ := (tidy.next.2 point).1 opening
  exact ends_of_not_firm (tidy.consume.not_firm point) brace semicolon

theorem Tidy.fresh_skipAll (tidy : parser.Tidy file)
    (closed : parser.aheadSpan.isPoint = true → parser.ahead ≠ .openBrace) :
    (parser.skipAll .semicolon).Fresh := by
  fun_induction Parser.skipAll .semicolon parser with
  | case1 parser ended => exact fun _ => Or.inr (of_decide_eq_true ended)
  | case2 parser inside found fewer induction =>
    exact induction tidy.consume fun point => (tidy.next.2 point).2 found
  | case3 parser inside absent =>
    exact fun point => ends_of_not_firm (tidy.not_firm point) (closed point) absent

end Parser

end Offside
