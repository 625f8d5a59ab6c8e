import Offside.Proofs.Reading.Conservation
import Offside.Proofs.Parser.Intake
import Offside.Proofs.Rendering.Tokens

/-!
Rules for productions that read words. What a production does before some words is said by the words that
it leaves and by what it returns. It reports nothing, and the tokens that it consumes can be counted, so
that a repetition whose rounds leave fewer words makes progress.
-/

namespace Offside.Haskell.Core

set_option autoImplicit false

open Offside.Lexical Offside.Parser Offside.Parse

def aheadOf : List Word → Token
  | [] => .endOfInput
  | word :: _ => word.token

/-- A parser before some words. Nothing is to be reported for what its stream still holds, and some
nesting levels may be entered. -/
structure Facing (file : FileId) (source : List Char) (room : Nat) (words : List Word)
    (parser : Parser) : Prop where
  marks : ∃ place, Marks file source place words parser.rest
  closed : ∀ last ∈ words.getLast?, last.token = .closeBrace
  room : parser.depth + room ≤ nestingLimit
  quiet : reportsOf parser.input.items = []

/-- A parser went on from some words to others and reported nothing. -/
structure Advances (file : FileId) (source : List Char) (room : Nat) (before : List Word)
    (parser : Parser) (after : List Word) (final : Parser) : Prop where
  facing : Facing file source room after final
  depth : final.depth = parser.depth
  diagnostics : final.context.diagnostics = parser.context.diagnostics
  reportedAt : final.reportedAt = parser.reportedAt
  consumed : parser.consumed ≤ final.consumed
  remaining : before.length + final.remaining ≤ parser.remaining + after.length

section Moves

variable {file : FileId} {source : List Char} {room : Nat} {words before middle after : List Word}
  {word : Word} {parser going final : Parser}

theorem Facing.ahead (facing : Facing file source room words parser) :
    parser.ahead = aheadOf words := by
  obtain ⟨place, marks⟩ := facing.marks
  generalize found : parser.rest = tokens at marks
  cases marks with
  | nil => simpa [Parser.isAtEnd, aheadOf] using (rest_eq_nil_iff parser).1 found
  | cons shows near later =>
    have inner : parser.isAtEnd = false := by
      rw [← Bool.not_eq_true, ← rest_eq_nil_iff, found]
      exact List.cons_ne_nil _ _
    rw [rest_of_inner inner] at found
    exact congrArg (·.1) (List.cons.inj found).1

theorem Facing.inner (facing : Facing file source room (word :: words) parser) :
    parser.isAtEnd = false := by
  obtain ⟨place, marks⟩ := facing.marks
  generalize found : parser.rest = tokens at marks
  cases marks with
  | cons shows near later =>
    rw [← Bool.not_eq_true, ← rest_eq_nil_iff, found]
    exact List.cons_ne_nil _ _

theorem Facing.first (facing : Facing file source room (word :: words) parser) :
    parser.aheadSpan.Shows file source word.text ∧
      ∃ place, Marks file source place words parser.consume.rest := by
  have split := rest_consume facing.inner
  obtain ⟨place, marks⟩ := facing.marks
  generalize parser.rest = tokens at marks split
  cases marks with
  | cons shows near later =>
    obtain ⟨first, rest⟩ := List.cons.inj split
    obtain rfl := congrArg (·.2) first
    exact ⟨shows, _, rest ▸ later⟩

theorem Advances.refl (facing : Facing file source room words parser) :
    Advances file source room words parser words parser where
  facing := facing
  depth := rfl
  diagnostics := rfl
  reportedAt := rfl
  consumed := Nat.le_refl _
  remaining := Nat.le_of_eq (Nat.add_comm _ _)

theorem Advances.trans (first : Advances file source room before parser middle going)
    (later : Advances file source room middle going after final) :
    Advances file source room before parser after final where
  facing := later.facing
  depth := later.depth.trans first.depth
  diagnostics := later.diagnostics.trans first.diagnostics
  reportedAt := later.reportedAt.trans first.reportedAt
  consumed := Nat.le_trans first.consumed later.consumed
  remaining := by
    have one := first.remaining
    have other := later.remaining
    omega

/-- Pulling from a stream with nothing to report reports nothing. -/
theorem quiet_pullFrom {stream : TokenStream} (quiet : reportsOf stream.items = [])
    (context : Context) :
    reportsOf (pullFrom stream context).2.1.items = [] ∧
      (pullFrom stream context).2.2.diagnostics = context.diagnostics := by
  have behind : reportsOf (pullFrom stream context).2.1.items = [] := by
    obtain ⟨front, split⟩ := (pullFrom_pulled stream context).suffix
    have all := quiet
    rw [← split, reportsOf, List.flatMap_append, List.append_eq_nil_iff] at all
    exact all.2
  have total := congrArg Context.diagnostics (absorbAll_pullFrom stream context)
  rw [Context.diagnostics_absorbAll, Context.diagnostics_absorbAll, behind, quiet] at total
  exact ⟨behind, by simpa using total⟩

theorem Facing.consume (facing : Facing file source room (word :: words) parser) :
    Advances file source room (word :: words) parser words parser.consume := by
  have kept := parser.consume_keeps
  have fewer := remaining_consume_lt facing.inner
  have pulled := quiet_pullFrom facing.quiet parser.context
  have quiet : reportsOf parser.consume.input.items = [] ∧
      parser.consume.context.diagnostics = parser.context.diagnostics := by
    unfold Parser.consume
    cases parser.buffered with
    | nil => exact pulled
    | cons next later => exact ⟨facing.quiet, rfl⟩
  refine
    { facing :=
        { marks := facing.first.2
          closed := fun last member => facing.closed last ?_
          room := by rw [kept.2.1]; exact facing.room
          quiet := quiet.1 }
      depth := kept.2.1
      diagnostics := quiet.2
      reportedAt := kept.2.2.2
      consumed := by rw [kept.1]; exact Nat.le_succ _
      remaining := ?_ }
  · cases words with
    | nil => cases member
    | cons next later => rwa [List.getLast?_cons_cons]
  · rw [List.length_cons]
    omega

theorem Facing.fill (facing : Facing file source room words parser) (count : Nat) :
    Advances file source room words parser words (parser.fill count) := by
  induction count generalizing parser with
  | zero => exact Advances.refl facing
  | succ count induction =>
    have pulled := quiet_pullFrom facing.quiet parser.context
    have once : Advances file source room words parser words (parser.fill 1) :=
      { facing :=
          { marks := by rw [rest_fill]; exact facing.marks
            closed := facing.closed
            room := facing.room
            quiet := pulled.1 }
        depth := rfl
        diagnostics := pulled.2
        reportedAt := rfl
        consumed := Nat.le_refl _
        remaining := by
          have bound := remaining_fill_le parser
          omega }
    exact once.trans (induction once.facing)

/-- Peeking shows a token further on and leaves all of them in place. -/
theorem Facing.peek (facing : Facing file source room words parser) {distance : Nat}
    (near : 1 ≤ distance) (within : distance ≤ reach) :
    Advances file source room words parser words (parser.peek distance).2 ∧
      (parser.peek distance).2.rest = parser.rest ∧
        ∀ found, parser.rest[distance]? = some found → (parser.peek distance).1 = found := by
  have run : Run (fun _ => True) parser [] (parser.peek distance).2 := Run.peek near within parser
  have same := run.effect.rest
  rw [List.nil_append, peek_apply near within] at same
  rw [peek_apply near within]
  have advances := facing.fill (distance - parser.buffered.length)
  have filled := length_buffered_fill (distance - parser.buffered.length) parser
  refine ⟨advances, same.symm, fun found seen => ?_⟩
  generalize parser.fill (distance - parser.buffered.length) = state at same filled ⊢
  have shown : ((state.ahead, state.aheadSpan) :: (state.buffered ++ state.input.visible))[distance]? =
      some found := by
    rw [same] at seen
    obtain ⟨within, rfl⟩ := List.getElem?_eq_some_iff.1 seen
    exact List.prefix_iff_getElem?.1 (List.takeWhile_prefix _) distance within
  obtain ⟨count, rfl⟩ := Nat.exists_eq_add_of_le' near
  rw [List.getElem?_cons_succ, List.getElem?_append_left (by omega)] at shown
  rw [Nat.add_sub_cancel, List.getD_eq_getElem?_getD, shown]
  rfl

end Moves

/-- Before some words a production goes on to others, reports nothing, and returns what is asked for. -/
def Parses {α : Type} (file : FileId) (source : List Char) (room : Nat) (before : List Word)
    (production : Parse α) (after : List Word) (holds : α → Prop) : Prop :=
  ∀ parser, Facing file source room before parser →
    holds (production parser).1 ∧
      Advances file source room before parser after (production parser).2

section Rules

variable {α β : Type} {file : FileId} {source : List Char} {room : Nat}
  {words before between middle after : List Word} {word : Word} {token : Token} {holds : β → Prop}

theorem Parses.bind {first : Parse α} {next : α → Parse β} {mid : α → Prop}
    (parses : Parses file source room before first middle mid)
    (later : ∀ value, mid value → Parses file source room middle (next value) after holds) :
    Parses file source room before (first >>= next) after holds := by
  intro parser facing
  obtain ⟨found, advances⟩ := parses parser facing
  obtain ⟨held, goesOn⟩ := later _ found _ advances.facing
  exact ⟨held, advances.trans goesOn⟩

theorem Parses.mono {production : Parse α} {strong weak : α → Prop}
    (parses : Parses file source room before production after strong)
    (weaken : ∀ value, strong value → weak value) :
    Parses file source room before production after weak :=
  fun parser facing => (parses parser facing).imp_left (weaken _)

theorem Parses.pure {value : α} {holds : α → Prop} (held : holds value) :
    Parses file source room words (Pure.pure value) words holds :=
  fun _ facing => ⟨held, Advances.refl facing⟩

theorem Parses.map {production : Parse α} {change : α → β}
    (parses : Parses file source room before production after fun value => holds (change value)) :
    Parses file source room before (change <$> production) after holds :=
  parses

theorem Parses.ahead {next : Token → Parse β} (known : aheadOf before = token)
    (later : Parses file source room before (next token) after holds) :
    Parses file source room before (ahead >>= next) after holds := by
  intro parser facing
  have same : parser.ahead = token := facing.ahead.trans known
  rw [ahead_bind_apply, same]
  exact later parser facing

theorem Parses.aheadSpan {next : Span → Parse β}
    (later : ∀ span : Span, span.Shows file source word.text →
      Parses file source room (word :: words) (next span) after holds) :
    Parses file source room (word :: words) (aheadSpan >>= next) after holds :=
  fun parser facing => later parser.aheadSpan facing.first.1 parser facing

/-- Where an expression starts makes no difference to how it is read. -/
theorem Parses.start {next : Span → Parse β}
    (later : ∀ span, Parses file source room before (next span) after holds) :
    Parses file source room before (Offside.Parse.aheadSpan >>= next) after holds :=
  fun parser facing => later parser.aheadSpan parser facing

theorem Parses.whenAt {yes no : Parse β} (known : aheadOf before = token)
    (later : Parses file source room before yes after holds) :
    Parses file source room before (isAt token >>= fun found => if found = true then yes else no)
      after holds := by
  intro parser facing
  have same : (isAt token >>= fun found => if found = true then yes else no) parser =
      (if decide (parser.ahead = token) = true then yes else no) parser := rfl
  rw [same, if_pos (by simp [facing.ahead, known])]
  exact later parser facing

theorem Parses.unlessAt {yes no : Parse β} (other : aheadOf before ≠ token)
    (later : Parses file source room before no after holds) :
    Parses file source room before (isAt token >>= fun found => if found = true then yes else no)
      after holds := by
  intro parser facing
  have same : (isAt token >>= fun found => if found = true then yes else no) parser =
      (if decide (parser.ahead = token) = true then yes else no) parser := rfl
  rw [same, if_neg (by simp [facing.ahead, other])]
  exact later parser facing

theorem parses_isAt (token : Token) :
    Parses file source room words (isAt token) words (· = decide (aheadOf words = token)) :=
  fun _ facing =>
    ⟨congrArg (fun ahead => decide (ahead = token)) facing.ahead, Advances.refl facing⟩

theorem Parses.consume {next : Unit → Parse β}
    (later : Parses file source room words (next ()) after holds) :
    Parses file source room (word :: words) (consume >>= next) after holds := by
  have passes : Parses file source room (word :: words) Parse.consume words fun _ => True :=
    fun _ facing => ⟨trivial, facing.consume⟩
  exact passes.bind fun _ _ => later

theorem parses_expect (inner : token ≠ .endOfInput) (known : word.token = token) :
    Parses file source room (word :: words) (expect token) words (· = true) := by
  intro parser facing
  rw [expect_apply inner, if_pos (facing.ahead.trans known)]
  exact ⟨rfl, facing.consume⟩

theorem parses_expectOrSkipTo (inner : token ≠ .endOfInput) (known : word.token = token) :
    Parses file source room (word :: words) (expectOrSkipTo token) words (· = true) := by
  intro parser facing
  rw [expectOrSkipTo_apply inner, if_pos (facing.ahead.trans known)]
  exact ⟨rfl, facing.consume⟩

theorem parses_accept (inner : token ≠ .endOfInput) (known : word.token = token) :
    Parses file source room (word :: words) (accept token) words (· = true) := by
  intro parser facing
  rw [accept_apply inner, if_pos (facing.ahead.trans known)]
  exact ⟨rfl, facing.consume⟩

theorem parses_accept_other (inner : token ≠ .endOfInput) (other : aheadOf words ≠ token) :
    Parses file source room words (accept token) words (· = false) := by
  intro parser facing
  rw [accept_apply inner, if_neg (by rwa [facing.ahead])]
  exact ⟨rfl, Advances.refl facing⟩

theorem Parses.decided {found : α} {next : α → Parse β} {first : Parse α}
    (parses : Parses file source room before first middle (· = found))
    (later : Parses file source room middle (next found) after holds) :
    Parses file source room before (first >>= next) after holds :=
  parses.bind fun _ same => same ▸ later

theorem Parses.whenAccepted {yes no : Parse β} (inner : token ≠ .endOfInput)
    (known : word.token = token) (later : Parses file source room words yes after holds) :
    Parses file source room (word :: words)
      (accept token >>= fun found => if found = true then yes else no) after holds :=
  Parses.decided (parses_accept inner known) (by rwa [if_pos rfl])

theorem Parses.unlessAccepted {yes no : Parse β} (inner : token ≠ .endOfInput)
    (other : aheadOf before ≠ token) (later : Parses file source room before no after holds) :
    Parses file source room before
      (accept token >>= fun found => if found = true then yes else no) after holds :=
  Parses.decided (parses_accept_other inner other) (by rwa [if_neg Bool.false_ne_true])

theorem Parses.spanFrom {start : Span} {next : Span → Parse β}
    (later : ∀ span, Parses file source room before (next span) after holds) :
    Parses file source room before (spanFrom start >>= next) after holds :=
  fun parser facing => later (parser.spanFrom start) parser facing

theorem advances_raise {parser : Parser} (facing : Facing file source room words parser)
    (fault : Fault) : Advances file source room words parser words (parser.raise fault) where
  facing := { facing with }
  depth := rfl
  diagnostics := rfl
  reportedAt := rfl
  consumed := Nat.le_refl _
  remaining := Nat.le_of_eq (Nat.add_comm _ _)

/-- A join may be a fault, of which no report is made. -/
theorem parses_join (first last : Span) :
    Parses file source room words (Parse.join first last) words fun _ => True := by
  refine fun parser facing => ⟨trivial, ?_⟩
  unfold Parse.join
  cases first.join last with
  | ok span => exact Advances.refl facing
  | error fault => exact advances_raise facing fault

theorem Parses.join {first last : Span} {next : Span → Parse β}
    (later : ∀ span, Parses file source room before (next span) after holds) :
    Parses file source room before (join first last >>= next) after holds :=
  (parses_join first last).bind fun span _ => later span

theorem nested_apply {refused : Span → α} {production : Parse α} {parser : Parser}
    (free : parser.depth < nestingLimit) :
    nested refused production parser =
      ((production { parser with depth := parser.depth + 1 }).1,
        (production { parser with depth := parser.depth + 1 }).2.leaveNesting) := by
  have enters : Parse.enterNesting parser = (none, { parser with depth := parser.depth + 1 }) := by
    change parser.enterNesting = _
    rw [Parser.enterNesting, if_pos free]
  rw [nested, bind_apply, enters]
  rfl

theorem Advances.leave {inside : Nat} {parser final : Parser}
    (advances : Advances file source inside before { parser with depth := parser.depth + 1 } after
      final)
    (bound : parser.depth + room ≤ nestingLimit) :
    Advances file source room before parser after final.leaveNesting := by
  have depth : final.depth = parser.depth + 1 := advances.depth
  rw [Parser.leaveNesting, if_pos (by rw [depth]; exact Nat.succ_pos _)]
  have back : final.depth - 1 = parser.depth := by rw [depth, Nat.add_sub_cancel]
  exact
    { facing :=
        { advances.facing with
          room := by
            change _ - 1 + room ≤ _
            omega }
      depth := back
      diagnostics := advances.diagnostics
      reportedAt := advances.reportedAt
      consumed := advances.consumed
      remaining := advances.remaining }

theorem parses_nested {refused : Span → α} {production : Parse α} {holds : α → Prop}
    (parses : Parses file source room before production after holds) :
    Parses file source (room + 1) before (nested refused production) after holds := by
  intro parser facing
  have bound := facing.room
  have entered : Facing file source room before { parser with depth := parser.depth + 1 } :=
    { facing with
      room := by
        change parser.depth + 1 + room ≤ _
        omega }
  obtain ⟨held, advances⟩ := parses _ entered
  rw [nested_apply (by omega)]
  exact ⟨held, advances.leave bound⟩

/-! Looking at tokens further on. -/

/-- A production that only looks at tokens, and what it finds. -/
def Sees {α : Type} (file : FileId) (source : List Char) (room : Nat) (words : List Word)
    (tokens : List (Token × Span)) (production : Parse α) (found : α) : Prop :=
  ∀ parser, Facing file source room words parser → parser.rest = tokens →
    (production parser).1 = found ∧ (production parser).2.rest = tokens ∧
      Advances file source room words parser words (production parser).2

section Sees

variable {tokens : List (Token × Span)} {span : Span}

theorem Sees.bind {first : Parse α} {next : α → Parse β} {value : α} {found : β}
    (sees : Sees file source room words tokens first value)
    (later : Sees file source room words tokens (next value) found) :
    Sees file source room words tokens (first >>= next) found := by
  intro parser facing rest
  obtain ⟨rfl, same, advances⟩ := sees parser facing rest
  obtain ⟨held, still, goesOn⟩ := later _ advances.facing same
  exact ⟨held, still, advances.trans goesOn⟩

theorem Sees.pure (value : α) : Sees file source room words tokens (Pure.pure value) value :=
  fun _ facing rest => ⟨rfl, rest, Advances.refl facing⟩

theorem sees_ahead : Sees file source room words tokens ahead (aheadOf words) :=
  fun _ facing rest => ⟨facing.ahead, rest, Advances.refl facing⟩

theorem sees_isAt (token : Token) :
    Sees file source room words tokens (isAt token) (decide (aheadOf words = token)) :=
  fun _ facing rest =>
    ⟨congrArg (fun ahead => decide (ahead = token)) facing.ahead, rest, Advances.refl facing⟩

theorem sees_aheadSpan : Sees file source room words ((token, span) :: tokens) aheadSpan span := by
  intro parser facing rest
  have inner : parser.isAtEnd = false := by
    rw [← Bool.not_eq_true, ← rest_eq_nil_iff, rest]
    exact List.cons_ne_nil _ _
  have found := rest
  rw [rest_of_inner inner] at found
  exact ⟨congrArg (·.2) (List.cons.inj found).1, rest, Advances.refl facing⟩

theorem sees_peek {distance : Nat} (near : 1 ≤ distance) (within : distance ≤ reach)
    (known : tokens[distance]? = some (token, span)) :
    Sees file source room words tokens (Parse.peek distance) token := by
  intro parser facing rest
  obtain ⟨advances, same, seen⟩ := Facing.peek facing near within
  exact ⟨congrArg (·.1) (seen (token, span) (by rw [rest, known])), same.trans rest, advances⟩

theorem sees_peekSpan {distance : Nat} (near : 1 ≤ distance) (within : distance ≤ reach)
    (known : tokens[distance]? = some (token, span)) :
    Sees file source room words tokens (peekSpan distance) span := by
  intro parser facing rest
  obtain ⟨advances, same, seen⟩ := Facing.peek facing near within
  exact ⟨congrArg (·.2) (seen (token, span) (by rw [rest, known])), same.trans rest, advances⟩

theorem Sees.parses {production : Parse α} {found : α}
    (sees : ∀ place tokens, Marks file source place words tokens →
      (∀ last ∈ words.getLast?, last.token = .closeBrace) →
        Sees file source room words tokens production found) :
    Parses file source room words production words (· = found) := by
  intro parser facing
  obtain ⟨place, marks⟩ := facing.marks
  obtain ⟨held, -, advances⟩ := sees place parser.rest marks facing.closed parser facing rfl
  exact ⟨held, advances⟩

end Sees

/-! Repetition. -/

variable {more : Parse Bool} {item : Parse (α ⊕ β)}

theorem parses_repeat_stop (stops : Parses file source room before more after (· = false)) :
    Parses file source room before (repeatUntil more item) after (· = ([], none)) := by
  intro parser facing
  obtain ⟨asked, advances⟩ := stops parser facing
  rw [repeatUntil, repeatBelow]
  rcases found : more parser with ⟨goes, stopped⟩
  rw [found] at asked advances
  obtain rfl : goes = false := asked
  exact ⟨rfl, advances⟩

theorem parses_repeat_last {closes : β → Prop}
    (goes : Parses file source room before more middle (· = true))
    (round : Parses file source room middle item after fun found =>
      ∃ last, found = .inr last ∧ closes last) :
    Parses file source room before (repeatUntil more item) after fun found =>
      ∃ last, found = ([], some last) ∧ closes last := by
  intro parser facing
  obtain ⟨asked, advances⟩ := goes parser facing
  rw [repeatUntil, repeatBelow]
  rcases found : more parser with ⟨answer, going⟩
  rw [found] at asked advances
  obtain rfl : answer = true := asked
  obtain ⟨⟨last, value, closed⟩, further⟩ := round going advances.facing
  rcases found : item going with ⟨item, final⟩
  rw [found] at value further
  obtain rfl : item = .inr last := value
  exact ⟨⟨last, by simp only [found], closed⟩, by simpa only [found] using advances.trans further⟩

theorem parses_repeat_step {each : α → Prop} {rest : List α × Option β → Prop}
    (goes : Parses file source room before more middle (· = true))
    (round : Parses file source room middle item between fun found =>
      ∃ value, found = .inl value ∧ each value)
    (fewer : between.length < before.length)
    (later : Parses file source room between (repeatUntil more item) after rest) :
    Parses file source room before (repeatUntil more item) after fun found =>
      ∃ value others, found = (value :: others.1, others.2) ∧ each value ∧ rest others := by
  intro parser facing
  obtain ⟨asked, advances⟩ := goes parser facing
  rw [repeatUntil, repeatBelow]
  rcases found : more parser with ⟨answer, going⟩
  rw [found] at asked advances
  obtain rfl : answer = true := asked
  obtain ⟨⟨value, read, held⟩, further⟩ := round going advances.facing
  rcases found : item going with ⟨item, final⟩
  rw [found] at read further
  obtain rfl : item = .inl value := read
  obtain ⟨others, whole⟩ := later final further.facing
  have so := advances.trans further
  have progress : final.remaining < parser.remaining := by
    have bound : before.length + final.remaining ≤ _ := so.remaining
    omega
  simp only [found, if_pos progress]
  exact ⟨⟨value, _, rfl, held, others⟩, so.trans whole⟩

theorem parses_many_stop {item : Parse α}
    (stops : Parses file source room before more after (· = false)) :
    Parses file source room before (many more item) after (· = []) :=
  Parses.bind (parses_repeat_stop stops) fun _ found => found ▸ Parses.pure rfl

theorem parses_many_step {item : Parse α} {each : α → Prop} {rest : List α → Prop}
    (goes : Parses file source room before more middle (· = true))
    (round : Parses file source room middle item between each)
    (fewer : between.length < before.length)
    (later : Parses file source room between (many more item) after rest) :
    Parses file source room before (many more item) after fun values =>
      ∃ value others, values = value :: others ∧ each value ∧ rest others := by
  have rounds : Parses file source room middle (Sum.inl <$> item : Parse (α ⊕ Empty)) between
      fun found => ∃ value, found = .inl value ∧ each value :=
    Parses.map (round.mono fun value held => ⟨value, rfl, held⟩)
  have goesOn : Parses file source room between (@repeatUntil α Empty more (Sum.inl <$> item)) after
      fun found => rest found.1 := later
  refine Parses.bind (parses_repeat_step goes rounds fewer goesOn) ?_
  rintro _ ⟨value, others, rfl, held, further⟩
  exact Parses.pure ⟨value, others.1, rfl, held, further⟩

end Rules

end Offside.Haskell.Core
