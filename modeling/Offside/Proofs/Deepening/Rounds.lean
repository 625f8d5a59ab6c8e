import Offside.Proofs.Deepening.Rules

/-!
What looks ahead, skips, nests and repeats, at the fork. A repetition trails another one if each of its
rounds does: in a round the first run consumes no more than the second, so the second does not stall
where the first goes on.
-/

namespace Offside

set_option autoImplicit false

open Offside.Parser

namespace Parse

variable {α β γ δ : Type} {detour : Detour} {given needs : Prop} {left right : Parser}

namespace Trails

section Looking

variable {spares : γ → Parser → Prop} {linked : γ → δ → Prop}

/-- A token is looked at from a place in front of which no segment comes. -/
theorem peek {distance : Nat} {next : Token → Parse γ} {other : Token → Parse δ}
    (near : distance = 1 ∨ distance = 2 ∧ (left.upcoming.get 1).1 ≠ .endOfInput)
    (free : left.ahead.isFree = true)
    (later : ∀ middle mirror, middle.upcoming = left.upcoming →
      Trails detour given needs spares linked (next (left.upcoming.get distance).1)
        (other (left.upcoming.get distance).1) middle mirror) :
    Trails detour given needs spares linked (Parse.peek distance >>= next)
      (Parse.peek distance >>= other) left right := by
  obtain ⟨inner, apart⟩ := Token.isFree_iff.1 free
  have low : 1 ≤ distance ∧ distance ≤ 2 := by
    rcases near with rfl | ⟨rfl, -⟩ <;> decide
  have reachable : distance ≤ reach := Nat.le_trans low.2 (by decide)
  have known : ∀ parser : Parser, Parse.peek distance parser =
      ((parser.upcoming.get distance).1, (parser.peek distance).2) := by
    intro parser
    rw [← (glimpse low.1 reachable parser).1]
    rfl
  have within : detour.Twin left right → distance < left.sight.length := by
    intro twin
    rcases near with rfl | ⟨rfl, further⟩
    · exact twin.two_of_inner inner
    · exact twin.three_of_inner inner further
  have leads : Leads (fun _ => True) left (left.peek distance).2 := Leads.peek low.1 reachable left
  refine step (known left) (fun twin => ?_) leads.clean
    (fun twin => twin.peek low.1 low.2 (within twin))
    (later _ (right.peek distance).2 (glimpse low.1 reachable left).2)
  rw [known, twin.glance (Haskell.Grammar.apart_of_ahead apart) low.2 (within twin)]

/-- A word is taken if it is next in both runs, whose texts are the same there. -/
theorem acceptWord {word : String} {next : Bool → Parse γ} {other : Bool → Parse δ}
    (later : ∀ found left right, Trails detour given needs spares linked (next found) (other found)
      left right) :
    Trails detour given needs spares linked (Parse.acceptWord word >>= next)
      (Parse.acceptWord word >>= other) left right := by
  have applied : ∀ parser : Parser, Parse.acceptWord word parser =
      if parser.isAtWord word then (true, parser.consume) else (false, parser) := by
    intro parser
    change (if parser.isAtWord word then _ else _ : Parse Bool) parser = _
    split <;> rfl
  have same : detour.Twin left right → right.isAtWord word = left.isAtWord word := by
    intro twin
    unfold Parser.isAtWord
    by_cases found : left.ahead = .identifier
    · have text := twin.lexeme (by rw [found]; rfl)
      simp only [Context.identifierAt, text, twin.ahead]
    · rw [decide_eq_false found, decide_eq_false (by rwa [twin.ahead]), Bool.false_and,
        Bool.false_and]
  have known := applied left
  by_cases found : left.isAtWord word = true
  · rw [if_pos found] at known
    have ahead : left.ahead = .identifier := by
      simp only [Parser.isAtWord, Bool.and_eq_true, decide_eq_true_eq] at found
      exact found.1
    refine step known (fun twin => ?_) clean_of_consume (fun twin => ?_) (later true _ right.consume)
    · rw [applied, if_pos ((same twin).trans found)]
    · exact twin.consume (by rw [ahead]; decide)
        (Haskell.Grammar.apart_of_ahead (by rw [ahead]; decide))
  · rw [if_neg found] at known
    refine step known (fun twin => ?_) id (fun twin => .refl twin) (later false left right)
    rw [applied, if_neg (by rwa [same twin])]

end Looking

section Skipping

variable {spares : γ → Parser → Prop} {linked : γ → δ → Prop}

theorem skipAll_steps {token : Token} (free : token.isFree = true)
    (twin : detour.Twin left right) :
    detour.Steps left right (left.skipAll token) (right.skipAll token) := by
  have same := twin.ahead
  have sameEnd := twin.isAtEnd
  fun_induction Parser.skipAll token left generalizing right with
  | case1 left ended =>
    rw [Parser.skipAll, dif_pos (sameEnd.trans ended)]
    exact .refl twin
  | case2 left inner found _ induction =>
    rw [Parser.skipAll.eq_def token right, dif_neg (by rwa [sameEnd]), if_pos (same.trans found)]
    obtain ⟨inside, apart⟩ := Token.isFree_iff.1 free
    have first := twin.consume (by rwa [found])
      (Haskell.Grammar.apart_of_ahead (by rwa [found]))
    exact first.trans (induction first.twin first.twin.ahead first.twin.isAtEnd)
  | case3 left inner absent =>
    rw [Parser.skipAll, dif_neg (by rwa [sameEnd]), if_neg (by rwa [same])]
    exact .refl twin

theorem skipAll {token : Token} {next : Unit → Parse γ} {other : Unit → Parse δ}
    (free : token.isFree = true)
    (later : ∀ left right, Trails detour given needs spares linked (next ()) (other ()) left right) :
    Trails detour given needs spares linked (Parse.skipAll token >>= next)
      (Parse.skipAll token >>= other) left right := by
  have known : ∀ parser, Parse.skipAll token parser = ((), parser.skipAll token) := fun _ => rfl
  have leads : Leads (fun _ => True) left (left.skipAll token) := Leads.skipAll token left
  exact step (known left) (fun _ => known right) leads.clean (fun twin => skipAll_steps free twin)
    (later _ (right.skipAll token))

theorem skipToAny {tokens : List Token} {next : Unit → Parse γ} {other : Unit → Parse δ}
    (proper : tokens.contains .properIdentifier = false) (dot : tokens.contains .dot = false)
    (later : ∀ left right, Trails detour given needs spares linked (next ()) (other ()) left right) :
    Trails detour given needs spares linked (Parse.skipToAny tokens >>= next)
      (Parse.skipToAny tokens >>= other) left right := by
  have known : ∀ parser, Parse.skipToAny tokens parser = ((), parser.skipToAny tokens 0) :=
    fun _ => rfl
  have leads : Leads (fun _ => True) left (left.skipToAny tokens 0) := Leads.skipToAny tokens 0 left
  exact step (known left) (fun _ => known right) leads.clean
    (fun twin => Haskell.Grammar.skipToAny_steps twin proper dot 0)
    (later _ (right.skipToAny tokens 0))

end Skipping

section Nesting

variable {kept : α → Prop} {linked : α → β → Prop}

theorem refuse {spares : α → Parser → Prop} {refused : Span → α} {second : Parse β} :
    Trails detour given needs spares linked (Parse.refuse refused) second left right :=
  .unclean (refuseNesting_spoils left)

theorem nested_apply {refused : Span → α} {production : Parse α} {parser : Parser}
    (room : parser.depth < nestingLimit) :
    Parse.nested refused production parser =
      ((production { parser with depth := parser.depth + 1 }).1,
        (production { parser with depth := parser.depth + 1 }).2.leaveNesting) := by
  have entered : enterNesting parser = (none, { parser with depth := parser.depth + 1 }) := by
    change parser.enterNesting = _
    rw [Parser.enterNesting, if_pos room]
  rw [Parse.nested, bind_apply, entered]
  rfl

theorem leaveNesting_steps {next other : Parser} (steps : detour.Steps left right next other)
    (clean : next.leaveNesting.Clean) :
    detour.Steps left right next.leaveNesting other.leaveNesting := by
  have depth := steps.twin.depth
  unfold Parser.leaveNesting at clean ⊢
  rw [depth]
  split
  · exact ⟨steps.twin.atDepth _, steps.progress⟩
  · rename_i outermost
    rw [if_neg outermost] at clean
    exact absurd clean (raise_spoils next _)

theorem nested {refused : Span → α} {refusedOther : Span → β} {production : Parse α}
    {mirror : Parse β}
    (inside : ∀ depth opposite, Trails detour given needs (fun value _ => kept value) linked
      production mirror { left with depth } opposite) :
    Trails detour given needs (fun value _ => kept value) linked (Parse.nested refused production)
      (Parse.nested refusedOther mirror) left right := by
  by_cases room : left.depth < nestingLimit
  · have deeper := inside (left.depth + 1) { right with depth := left.depth + 1 }
    constructor
    · rw [nested_apply room]
      intro final
      exact { deeper.backward (clean_of_leaveNesting final) with }
    · rw [nested_apply room]
      intro final spared
      obtain ⟨needed, goesOn⟩ := deeper.forward (clean_of_leaveNesting final) spared
      refine ⟨needed, fun twin premise => ?_⟩
      have depth := twin.depth
      rw [nested_apply (by rwa [depth]), depth]
      have met := goesOn (twin.atDepth _) premise
      have left' := leaveNesting_steps met.steps final
      exact ⟨⟨left'.twin, left'.progress⟩, met.value⟩
  · have refuses : Parse.nested refused production left = Parse.refuse refused left := by
      have refused : enterNesting left = (some left.refuseNesting.1, left.refuseNesting.2) := by
        change left.enterNesting = _
        rw [Parser.enterNesting, if_neg room]
      rw [Parse.nested, bind_apply, refused]
      rfl
    refine .unclean ?_
    rw [refuses]
    exact refuseNesting_spoils left

end Nesting

end Trails

section Repetition

/-- What a round has to spare: its value, the last value, or the state where no more is asked for. -/
def RoundSpares (each : α → Prop) (closes : β → Prop) (final : Parser → Prop) :
    Option (α ⊕ β) → Parser → Prop
  | none, after => final after
  | some (.inl value), _ => each value
  | some (.inr last), _ => closes last

variable {each : α → Prop} {closes : β → Prop} {final : Parser → Prop} {view other : α → γ}
  {viewLast otherLast : β → δ} {more : Parse Bool}

/-- By induction on what remains: a round in which the first run consumes something is one in which
the second does. -/
theorem repeatUntil_trails_from (before : Parser → Prop) {item : Parse (α ⊕ β)}
    (rounds : ∀ left right, Trails detour True (before left)
      (fun found after => RoundSpares each closes final found after ∧
        ∀ value, found = some (.inl value) → before after)
      (fun value opposite => opposite.map (Sum.map other otherLast) =
        value.map (Sum.map view viewLast))
      (oneRound more item) (oneRound more item) left right)
    (left right : Parser) :
    Trails detour True (before left)
      (fun found after => (∀ value ∈ found.1, each value) ∧ (∀ last ∈ found.2, closes last) ∧
        (found.2 = none → final after))
      (fun found opposite => opposite.1.map other = found.1.map view ∧
        opposite.2.map otherLast = found.2.map viewLast)
      (repeatUntil more item) (repeatUntil more item) left right := by
  induction bound : left.remaining using Nat.strong_induction_on generalizing left right with
  | _ bound induction =>
    subst bound
    have unroll : ∀ parser, repeatUntil more item parser =
        (oneRound more item >>= afterRound more item parser.remaining) parser :=
      fun parser => repeatBelow_eq more item parser.remaining parser
    have unrolled := unroll left
    have otherUnrolled := unroll right
    obtain ⟨backward, forward⟩ := rounds left right
    rw [bind_apply] at unrolled otherUnrolled
    match found : oneRound more item left with
    | (none, after) =>
      rw [found] at unrolled backward forward
      have ended : repeatUntil more item left = (([], none), after) := unrolled
      constructor
      · rw [ended]
        exact backward
      · rw [ended]
        intro clean spared
        obtain ⟨needed, meets⟩ := forward clean ⟨spared.2.2 rfl, nofun⟩
        refine ⟨needed, fun twin _ => ?_⟩
        have met := meets twin trivial
        have none : (oneRound more item right).1 = none := by
          simpa using met.value
        rw [otherUnrolled, none]
        exact ⟨met.steps, rfl, rfl⟩
    | (some (.inr last), after) =>
      rw [found] at unrolled backward forward
      have ended : repeatUntil more item left = (([], some last), after) := unrolled
      constructor
      · rw [ended]
        exact backward
      · rw [ended]
        intro clean spared
        obtain ⟨needed, meets⟩ := forward clean ⟨spared.2.1 last rfl, nofun⟩
        refine ⟨needed, fun twin _ => ?_⟩
        have met := meets twin trivial
        obtain ⟨last', known, same⟩ : ∃ last',
            (oneRound more item right).1 = some (.inr last') ∧
              otherLast last' = viewLast last := by
          obtain ⟨found, known, same⟩ := Option.map_eq_some_iff.1 met.value
          rcases found with value' | last'
          · cases same
          · exact ⟨last', known, Sum.inr.inj same⟩
        rw [otherUnrolled, known]
        exact ⟨met.steps, rfl, congrArg Option.some same⟩
    | (some (.inl value), after) =>
      rw [found] at unrolled backward forward
      by_cases consumed : after.remaining < left.remaining
      case neg =>
        have stalls : repeatUntil more item left = (([value], none), after.raise .stalled) :=
          unrolled.trans (if_neg consumed)
        refine .unclean ?_
        rw [stalls]
        exact raise_spoils after _
      have goesOn : repeatUntil more item left =
          ((value :: (repeatUntil more item after).1.1, (repeatUntil more item after).1.2),
            (repeatUntil more item after).2) :=
        unrolled.trans (if_pos consumed)
      have later := induction _ consumed after (oneRound more item right).2 rfl
      constructor
      · rw [goesOn]
        exact fun clean => backward (later.backward clean)
      · rw [goesOn]
        rintro clean ⟨all, last, final⟩
        rw [List.forall_mem_cons] at all
        obtain ⟨between, ends⟩ := later.forward clean ⟨all.2, last, final⟩
        obtain ⟨needed, meets⟩ := forward (later.backward clean) ⟨all.1, fun _ _ => between⟩
        refine ⟨needed, fun twin _ => ?_⟩
        have met := meets twin trivial
        have ended := ends met.steps.twin trivial
        obtain ⟨value', known, same⟩ : ∃ value',
            (oneRound more item right).1 = some (.inl value') ∧
              other value' = view value := by
          obtain ⟨found, known, same⟩ := Option.map_eq_some_iff.1 met.value
          rcases found with value' | last'
          · exact ⟨value', known, Sum.inl.inj same⟩
          · cases same
        have steps : detour.Steps left right after (oneRound more item right).2 :=
          met.steps
        have progress := steps.progress
        generalize (oneRound more item right).2 = opposite at *
        have goesOn' : repeatUntil more item right =
            ((value' :: (repeatUntil more item opposite).1.1,
                (repeatUntil more item opposite).1.2),
              (repeatUntil more item opposite).2) := by
          rw [otherUnrolled, known, afterRound_inl, if_pos (by omega)]
          rfl
        rw [goesOn']
        refine ⟨steps.trans ended.steps, ?_, ended.value.2⟩
        rw [List.map_cons, List.map_cons, same, ended.value.1]

theorem repeatUntil_trails {item : Parse (α ⊕ β)}
    (rounds : Tracks detour (RoundSpares each closes final)
      (fun value opposite => opposite.map (Sum.map other otherLast) =
        value.map (Sum.map view viewLast)) (oneRound more item)) :
    Tracks detour
      (fun found after => (∀ value ∈ found.1, each value) ∧ (∀ last ∈ found.2, closes last) ∧
        (found.2 = none → final after))
      (fun found opposite => opposite.1.map other = found.1.map view ∧
        opposite.2.map otherLast = found.2.map viewLast)
      (repeatUntil more item) :=
  repeatUntil_trails_from (fun _ => True) fun left right => (rounds left right).mono id
    (fun _ => id) (fun _ => And.left) fun _ _ _ => id

def ItemSpares (each : α → Prop) (final : Parser → Prop) (found : Option α) (after : Parser) :
    Prop :=
  found.elim (final after) each

variable {item : Parse α}

theorem many_trails_from (before final : Parser → Prop)
    (rounds : ∀ left right, Trails detour True (before left)
      (fun found after => ItemSpares each final found after ∧ (found.isSome = true → before after))
      (fun value opposite => opposite.map other = value.map view) (oneRound more item)
      (oneRound more item) left right)
    (left right : Parser) :
    Trails detour True (before left)
      (fun found after => (∀ value ∈ found, each value) ∧ final after)
      (fun found opposite => opposite.map other = found.map view) (many more item) (many more item)
      left right := by
  have wrapped : ∀ left right, Trails detour True (before left)
      (fun found after => RoundSpares each (fun _ : Empty => True) final found after ∧
        ∀ value, found = some (.inl value) → before after)
      (fun value opposite => opposite.map (Sum.map other id) = value.map (Sum.map view id))
      (oneRound more (Sum.inl <$> item : Parse (α ⊕ Empty)))
      (oneRound more (Sum.inl <$> item : Parse (α ⊕ Empty))) left right := by
    intro left right
    refine Trails.congr (oneRound_map more item Sum.inl left)
      (fun _ => oneRound_map more item Sum.inl right) ?_
    refine (rounds left right).map ?_ ?_
    · intro found after spared
      cases found with
      | none => exact ⟨spared.1, nofun⟩
      | some value => exact ⟨spared.1, fun _ => spared.2 value rfl⟩
    · intro found opposite same
      have moved := congrArg (Option.map (Sum.inl : γ → γ ⊕ Empty)) same
      simpa [Function.comp_def] using moved
  refine (repeatUntil_trails_from before wrapped left right).map ?_ ?_
  · exact fun found after spared =>
      ⟨spared.1, fun last => last.elim, fun _ => spared.2⟩
  · exact fun found opposite same => same.1

theorem many_trails_to (final : Parser → Prop)
    (rounds : Tracks detour (ItemSpares each final)
      (fun value opposite => opposite.map other = value.map view) (oneRound more item)) :
    Tracks detour (fun found after => (∀ value ∈ found, each value) ∧ final after)
      (fun found opposite => opposite.map other = found.map view) (many more item) :=
  many_trails_from (fun _ => True) final fun left right => (rounds left right).mono id
    (fun _ => id) (fun _ => And.left) fun _ _ _ => id

section Items

variable (detour each view other)

abbrev TrailsItem (item : Parse α) (left right : Parser) : Prop :=
  Trails detour True True (fun value _ => each value) (fun value opposite => other opposite = view value)
    item item left right

abbrev TrailsRound (round : Parse (Option α)) (left right : Parser) : Prop :=
  Trails detour True True (fun found _ => ∀ value ∈ found, each value)
    (fun value opposite => opposite.map other = value.map view) round round left right

abbrev TracksItems (items : Parse (List α)) : Prop :=
  Tracks detour (fun found _ => ∀ value ∈ found, each value)
    (fun found opposite => opposite.map other = found.map view) items

end Items

theorem many_trails (rounds : ∀ left right, TrailsRound detour each view other (oneRound more item) left right) :
    TracksItems detour each view other (many more item) := by
  intro left right
  refine (many_trails_to (fun _ => True) (fun left right => ?_) left right).mono id
    (fun _ => id) (fun _ spared => ⟨spared, trivial⟩) fun _ _ _ => id
  refine (rounds left right).mono id (fun _ => id) (fun _ spared => ?_) fun _ _ _ => id
  intro value member
  rw [Option.mem_def] at member
  rwa [member] at spared

theorem round_trails (trails : TrailsItem detour each view other item left right) :
    TrailsRound detour each view other (do return some (← item)) left right :=
  trails.map (fun value _ spared => spared value rfl) fun _ _ same => congrArg some same

theorem round_ends : TrailsRound detour each view other (pure none) left right :=
  .pure (fun _ => trivial) fun _ => rfl

/-- Items for as long as the lookahead is of a kind. -/
theorem many_while_trails {isKind : Token → Bool}
    (trails : ∀ left right, isKind left.ahead = true →
      TrailsItem detour each view other item left right) :
    TracksItems detour each view other (many (do return isKind (← Parse.ahead)) item) := by
  refine many_trails fun left right => ?_
  unfold oneRound
  simp only [Trails.bind_assoc_iff]
  refine .ahead ?_
  simp only [Trails.pure_bind_iff]
  split
  · rename_i goesOn
    exact round_trails (trails left right goesOn)
  · exact round_ends

theorem many_isAt_trails {token : Token}
    (trails : ∀ left right, left.ahead = token → TrailsItem detour each view other item left right) :
    TracksItems detour each view other (many (isAt token) item) :=
  many_trails fun left right =>
    .isAt (fun found => round_trails (trails left right found)) fun _ => round_ends

variable {separator : Token} (free : separator.isFree = true)
  (trails : ∀ left right, TrailsItem detour each view other item left right)

include free trails

theorem many_accept_trails : TracksItems detour each view other (many (accept separator) item) :=
  many_trails fun _ _ => .accept free (fun left right => round_trails (trails left right))
    fun _ => round_ends

theorem separated_trails : TracksItems detour each view other (separated separator item) := by
  intro left right
  unfold separated
  refine .bind (trails left right) fun first first' left right => ?_
  refine .bind (many_accept_trails free trails left right) fun later later' left right => ?_
  refine .pure (fun spared => ?_) ?_
  · rw [List.forall_mem_cons] at spared
    exact ⟨⟨trivial, spared.1⟩, spared.2⟩
  · rintro ⟨⟨-, head⟩, tail⟩
    rw [List.map_cons, List.map_cons, head, tail]

end Repetition

end Parse

namespace Haskell.Grammar

open Offside.Parse

variable {α γ : Type} {detour : Detour} {given needs : Prop} {left right : Parser}

theorem reject_spoils (parser : Parser) : ¬(reject parser).2.Clean := by
  unfold reject
  rw [bind_apply, bind_apply]
  change ¬((if closesOperand parser.ahead then _ else _ : Parse Span) parser).2.Clean
  split
  · exact reportUnexpected_spoils parser
  · exact fail_spoils parser

section Blocks

variable {each : α → Prop} {view other : α → γ} {item : Parse α}

theorem endOfItem_trails : Follows detour (fun _ _ => True) endOfItem := by
  intro left right
  have skips : Follows detour (fun _ _ => True) (skipAll .semicolon) := fun left right =>
    @Trails.skipAll _ _ _ _ _ left right _ _ .semicolon pure pure rfl
      fun left right => .pure (fun _ => trivial) fun _ => trivial
  unfold endOfItem
  refine .ahead ?_
  split
  · exact skips left right
  · exact skips left right
  · exact skips left right
  · refine .reportUnexpected fun after => mends ?_
    exact (Agrees.skipToAny _).bind fun _ => .skipAll _

theorem itemThenEnd_trails (trails : TrailsItem detour each view other item left right) :
    TrailsItem detour each view other (itemThenEnd item) left right := by
  unfold itemThenEnd
  refine .bind trails fun value value' left right => ?_
  refine .bind (endOfItem_trails left right) fun _ _ left right => ?_
  exact .pure (fun spared => ⟨⟨trivial, spared⟩, trivial⟩) fun known => known.1.2

theorem items_trails (trails : ∀ left right, TrailsItem detour each view other item left right) :
    TracksItems detour each view other (many itemFollows (itemThenEnd item)) := by
  have asks : itemFollows = (do return startsItem (← Parse.ahead)) :=
    funext itemFollows_ahead
  rw [asks]
  exact many_while_trails fun left right _ => itemThenEnd_trails (trails left right)

theorem block_trails (trails : ∀ left right, TrailsItem detour each view other item left right) :
    TracksItems detour each view other (block item) := by
  intro left right
  unfold block
  refine .expect rfl fun found left right => ?_
  cases found with
  | false => exact .pure (fun _ => trivial) fun _ => rfl
  | true =>
    refine .bind (items_trails trails left right) fun items items' left right => ?_
    refine .expectOrSkipTo rfl fun _ left right => ?_
    exact .pure (fun spared => ⟨trivial, spared⟩) fun known => known.2

end Blocks

end Haskell.Grammar

end Offside
