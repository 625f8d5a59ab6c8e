import Offside.Proofs.Lockstep.Rules

/-!
What skips, looks ahead, nests and repeats, in lockstep. A repetition is mirrored if each of its rounds
is: what the first run consumes in a round the second consumes at least, so neither stalls before the
other.
-/

namespace Offside

set_option autoImplicit false

open Offside.Parser

namespace Pairing

variable {pairing : Pairing} [lawful : pairing.Lawful] {before after : List Token}
  {left right : Parser}

/-- A token is consumed by both runs where brackets are not kept track of. -/
theorem Loose.consume (loose : pairing.Loose) (pairs : pairing.pairs before left right)
    (inner : left.isAtEnd = false) (good : pairing.good left.consume) :
    pairing.Steps after left right left.consume right.consume := by
  obtain ⟨brackets, nested, nest⟩ := exists_nestAfter left.ahead
  have steps := lawful.consume (loose.untracked _ brackets _ _ pairs) inner nest good
  exact ⟨loose.untracked _ _ _ _ steps.pairs, steps.progress⟩

theorem Loose.skipToAny (loose : pairing.Loose) (tokens : List Token) (depth : Nat)
    (pairs : pairing.pairs before left right) (good : pairing.good (left.skipToAny tokens depth)) :
    pairing.Steps before left right (left.skipToAny tokens depth)
      (right.skipToAny tokens depth) := by
  have same := lawful.ahead pairs (loose.seamless left)
  have sameEnd := Parse.isAtEnd_iff pairs
  fun_induction Parser.skipToAny tokens depth left generalizing right with
  | case1 depth left ended =>
    rw [Parser.skipToAny, dif_pos (sameEnd.trans ended)]
    exact .refl pairs
  | case2 depth left inner stops =>
    rw [Parser.skipToAny, dif_neg (by rwa [sameEnd]), if_pos (by rwa [same])]
    exact .refl pairs
  | case3 depth left inner goesOn _ induction =>
    rw [Parser.skipToAny.eq_def tokens depth right, dif_neg (by rwa [sameEnd]),
      if_neg (by rwa [same]), same]
    have step : pairing.Steps before left right left.consume right.consume :=
      loose.consume pairs (by simpa using inner)
        (lawful.good_of_leads (Leads.skipToAny tokens _ _) good)
    exact step.trans (induction step.pairs good
      (lawful.ahead step.pairs (loose.seamless _)) (Parse.isAtEnd_iff step.pairs))

theorem Forgiving.skipTo (forgiving : pairing.Forgiving) (token : Token)
    (pairs : pairing.pairs before left right) :
    pairing.pairs before (left.skipTo token) (right.skipTo token) := by
  have same := forgiving.ahead pairs
  have sameEnd := Parse.isAtEnd_iff pairs
  fun_induction Parser.skipTo token left generalizing right with
  | case1 left ended =>
    rw [Parser.skipTo, dif_pos (sameEnd.trans ended)]
    exact pairs
  | case2 left inner stops =>
    rw [Parser.skipTo, dif_neg (by rwa [sameEnd]), if_pos (same.trans stops)]
    exact pairs
  | case3 left inner goesOn _ induction =>
    rw [Parser.skipTo.eq_def token right, dif_neg (by rwa [sameEnd]), if_neg (by rwa [same])]
    have step : pairing.Steps before left right left.consume right.consume :=
      forgiving.toLoose.consume pairs (by simpa using inner) (forgiving.good _)
    exact induction step.pairs (forgiving.ahead step.pairs) (Parse.isAtEnd_iff step.pairs)

theorem skipAll_steps {token : Token} (plain : token.isPlain = true)
    (blind : token.isTelling = false ∨ pairing.Apart)
    (pairs : pairing.pairs before left right) (good : pairing.good (left.skipAll token)) :
    pairing.Steps before left right (left.skipAll token) (right.skipAll token) := by
  have sameEnd := Parse.isAtEnd_iff pairs
  fun_induction Parser.skipAll token left generalizing right with
  | case1 left ended =>
    rw [Parser.skipAll, dif_pos (sameEnd.trans ended)]
    exact .refl pairs
  | case2 left inner found _ induction =>
    have inner : left.isAtEnd = false := by simpa using inner
    have solid : left.ahead.isBrace = false := by
      rw [found]
      exact Token.isBrace_of_plain plain
    have same := (Parse.ahead_of_solid pairs (Or.inl solid)).1
    rw [Parser.skipAll.eq_def token right, dif_neg (by simp [sameEnd, inner]),
      if_pos (same.trans found)]
    have step : pairing.Steps before left right left.consume right.consume := by
      apply lawful.consume pairs inner _ (lawful.good_of_leads (Leads.skipAll token _) good)
      rw [found]
      exact nestAfter_plain plain before
    exact step.trans (induction step.pairs good (Parse.isAtEnd_iff step.pairs))
  | case3 left inner absent =>
    have differs : right.ahead ≠ token := by
      rcases blind with blind | apart
      · rwa [Ne, Parse.ahead_iff blind pairs]
      · rwa [lawful.ahead pairs (apart left good)]
    rw [Parser.skipAll, dif_neg (by rwa [sameEnd]), if_neg differs]
    exact .refl pairs

end Pairing

namespace Parse

variable {α β γ : Type} {pairing : Pairing} [lawful : pairing.Lawful] {eager : Bool}
  {before between after brackets : List Token} {left right : Parser}

section Skipping

variable {change : β → β}

theorem Mirrors.expectOrSkipTo {token : Token} {next other : Bool → Parse β}
    (inner : token ≠ .endOfInput) (solid : eager = true → token.isBrace = false)
    (nest : nestAfter before token = some between)
    (later : ∀ found left right, Mirrors pairing false between after (next found) (other found)
      change left right) :
    Mirrors pairing eager before after (expectOrSkipTo token >>= next)
      (expectOrSkipTo token >>= other) change left right := by
  let repair : Parser → Parser := fun parser => (Parse.accept token (parser.skipTo token)).2
  have applied : ∀ parser : Parser, Parse.expectOrSkipTo token parser =
      if parser.ahead = token then (true, parser.consume) else (false, repair parser.fail) :=
    fun parser => expectOrSkipTo_apply inner parser
  apply Mirrors.due applied _ _ inner solid nest (later true) (later false)
  · exact fun parser => (Leads.skipTo token parser).trans (Leads.accept inner _)
  · intro forgiving left right pairs
    have skipped := forgiving.skipTo token pairs
    have same := forgiving.ahead skipped
    change pairing.pairs before (Parse.accept token _).2 (Parse.accept token _).2
    rw [accept_apply inner, accept_apply inner, same]
    split
    · rename_i found
      exact (forgiving.toLoose.consume skipped (isAtEnd_of_ahead inner found)
        (forgiving.good _)).pairs
    · exact skipped

/-- A bracket is closed, and what it holds goes from the opening token to here. -/
theorem Mirrors.closed {token : Token} {start : Span} {make other : Span → β}
    (inner : token ≠ .endOfInput) (nest : nestAfter before token = some after)
    (same : ∀ span, other (pairing.move span) = change (make span)) :
    Mirrors pairing false before after
      (do
        let _ ← Parse.expectOrSkipTo token
        return make (← Parse.spanFrom start))
      (do
        let _ ← Parse.expectOrSkipTo token
        return other (← Parse.spanFrom (pairing.move start)))
      change left right :=
  Mirrors.expectOrSkipTo inner (by simp) nest fun _ _ _ => Mirrors.finish same

theorem Mirrors.reportAndSkip {tokens : List Token} {next other : Unit → Parse β}
    (later : ∀ left right, Mirrors pairing false between after (next ()) (other ()) change left
      right) :
    Mirrors pairing eager before after
      ((do Parse.reportUnexpected; skipToAny tokens) >>= next)
      ((do Parse.reportUnexpected; skipToAny tokens) >>= other) change left right := by
  have repairs : ∀ parser : Parser, Leads (fun _ => True) parser (parser.skipToAny tokens 0) :=
    Leads.skipToAny tokens 0
  refine Mirrors.mend .unexpected repairs ?_ rfl (fun _ _ => rfl) fun opposite => later _ opposite
  exact fun forgiving left right pairs =>
    (forgiving.toLoose.skipToAny tokens 0 pairs (forgiving.good _)).pairs

/-- What was spoiled consumes whatever is next, as does a run that ends between parentheses. -/
theorem Mirrors.closing {closing : Token} {next other : Unit → Parse β}
    (settled : (∃ mishap parser, left = Mishap.apply mishap parser) ∨ left.ahead = closing)
    (inner : closing ≠ .endOfInput) (nest : nestAfter before closing = some between)
    (later : ∀ left right, Mirrors pairing false between after (next ()) (other ()) change left
      right) :
    Mirrors pairing false before after (Parse.consume >>= next) (Parse.consume >>= other) change
      left right := by
  rcases settled with ⟨mishap, parser, rfl⟩ | found
  · have known : ∀ parser, Parse.consume parser = ((), parser.consume) := fun _ => rfl
    apply Mirrors.step (known _) (fun _ _ => known right) lawful.good_of_consume _
      (later _ right.consume)
    intro pairs good
    have forgiving := lawful.mishap mishap parser (lawful.good_of_consume good)
    exact ⟨(fun isEager => nomatch isEager), forgiving.steps pairs (forgiving.consume pairs)⟩
  · exact Mirrors.take found inner (fun isEager => nomatch isEager) nest later

theorem Mirrors.reportAndConsume {next other : Unit → Parse β} (inner : left.isAtEnd = false)
    (later : ∀ left right, Mirrors pairing false between after (next ()) (other ()) change left
      right) :
    Mirrors pairing eager before after ((do Parse.reportUnexpected; Parse.consume) >>= next)
      ((do Parse.reportUnexpected; Parse.consume) >>= other) change left right := by
  have known : ∀ parser : Parser, parser.isAtEnd = false →
      (do Parse.reportUnexpected; Parse.consume : Parse Unit) parser =
        ((), (Mishap.unexpected.apply parser).consumeInner) := by
    intro parser inner
    have stays : (Mishap.unexpected.apply parser).isAtEnd = false :=
      (isAtEnd_reportUnexpected parser).trans inner
    rw [Parser.consumeInner, stays]
    rfl
  have repairs : ∀ parser : Parser, Leads (fun _ => True) parser parser.consumeInner :=
    Leads.consumeInner
  apply Mirrors.mend .unexpected repairs _ (known left inner) _ fun opposite => later _ opposite
  · intro forgiving left right pairs
    have same := isAtEnd_iff pairs
    unfold Parser.consumeInner
    rw [same]
    split
    · exact pairs
    · rename_i inner
      exact (forgiving.toLoose.consume pairs (by simpa using inner) (forgiving.good _)).pairs
  · exact fun _ pairs => known right ((isAtEnd_iff pairs).trans inner)

theorem Mirrors.skipToAny {tokens : List Token} {next other : Unit → Parse β}
    (loose : pairing.Loose)
    (later : ∀ left right, Mirrors pairing false before after (next ()) (other ()) change left
      right) :
    Mirrors pairing false before after (skipToAny tokens >>= next) (skipToAny tokens >>= other)
      change left right := by
  have known : ∀ parser, Parse.skipToAny tokens parser = ((), parser.skipToAny tokens 0) :=
    fun _ => rfl
  apply Mirrors.step (known left) (fun _ _ => known right)
    (lawful.good_of_leads (Leads.skipToAny tokens 0 left)) _ (later _ (right.skipToAny tokens 0))
  exact fun pairs good =>
    ⟨(fun isEager => nomatch isEager), loose.skipToAny tokens 0 pairs good⟩

theorem Mirrors.skipTo {token : Token} {next other : Unit → Parse β}
    (forgiving : pairing.Forgiving)
    (later : ∀ left right, Mirrors pairing false before after (next ()) (other ()) change left
      right) :
    Mirrors pairing false before after (skipTo token >>= next) (skipTo token >>= other) change left
      right := by
  have known : ∀ parser, Parse.skipTo token parser = ((), parser.skipTo token) := fun _ => rfl
  apply Mirrors.step (known left) (fun _ _ => known right) (fun _ => forgiving.good left) _
    (later _ (right.skipTo token))
  exact fun pairs _ =>
    ⟨(fun isEager => nomatch isEager), forgiving.steps pairs (forgiving.skipTo token pairs)⟩

theorem Mirrors.skipAll {token : Token} {next other : Unit → Parse β}
    (plain : token.isPlain = true) (blind : token.isTelling = false ∨ pairing.Apart)
    (later : ∀ left right, Mirrors pairing false before after (next ()) (other ()) change left
      right) :
    Mirrors pairing false before after (skipAll token >>= next) (skipAll token >>= other) change
      left right := by
  have known : ∀ parser, Parse.skipAll token parser = ((), parser.skipAll token) := fun _ => rfl
  apply Mirrors.step (known left) (fun _ _ => known right)
    (lawful.good_of_leads (Leads.skipAll token left)) _ (later _ (right.skipAll token))
  exact fun pairs good =>
    ⟨(fun isEager => nomatch isEager), Pairing.skipAll_steps plain blind pairs good⟩

end Skipping

section Looking

variable {change : β → β}

/-- A token is looked at, and what comes next is the same as before. -/
theorem Mirrors.peekBoth {distance : Nat} {next other : Token × Span → Parse β}
    (inner : left.isAtEnd = false) (solid : left.ahead.isBrace = false)
    (reachable : Pairing.Reachable distance left)
    (later : ∀ found seen left' opposite, Alike left left' → pairing.Glimpses found seen →
      (distance = 1 → found.1 = left.consume.ahead) →
      Mirrors pairing false before after (next found) (other seen) change left' opposite) :
    Mirrors pairing eager before after (modifyGet (Parser.peek distance) >>= next)
      (modifyGet (Parser.peek distance) >>= other) change left right := by
  have near : 1 ≤ distance ∧ distance ≤ reach := by
    rcases reachable with rfl | ⟨rfl, -⟩ <;> decide
  have looks : ∀ found seen opposite, pairing.Glimpses found seen →
      found = (left.peek distance).1 →
      Mirrors pairing false before after (next found) (other seen) change (left.peek distance).2
        opposite := by
    rintro found seen opposite glimpses rfl
    apply later _ seen _ opposite (Alike.peek near.1 near.2 left) glimpses
    rintro rfl
    exact peek_one left
  have itself : pairing.Glimpses (left.peek distance).1
      ((left.peek distance).1.1, pairing.move (left.peek distance).1.2) :=
    ⟨Or.inl rfl, fun _ => rfl⟩
  have leads : Leads (fun _ => True) left (left.peek distance).2 := Leads.peek near.1 near.2 left
  constructor
  · exact fun final => lawful.good_of_leads leads ((looks _ _ right itself rfl).backward final)
  · intro pairs final
    have good := (looks _ _ right itself rfl).backward final
    obtain ⟨glimpses, steps⟩ := lawful.peek pairs inner solid reachable good
    have ended := (looks _ _ (right.peek distance).2 glimpses rfl).forward steps.pairs final
    exact ⟨steps.trans ended.steps, fun _ => Or.inl solid, ended.value⟩

theorem Mirrors.peek {distance : Nat} {next other : Token → Parse β}
    (inner : left.isAtEnd = false) (solid : left.ahead.isBrace = false)
    (reachable : Pairing.Reachable distance left) (blind : other .semicolon = other .closeBrace)
    (later : ∀ token left' opposite, Alike left left' →
      (distance = 1 → token = left.consume.ahead) →
      Mirrors pairing false before after (next token) (other token) change left' opposite) :
    Mirrors pairing eager before after (peek distance >>= next) (peek distance >>= other) change
      left right := by
  have looks : Mirrors pairing eager before after
      (modifyGet (Parser.peek distance) >>= fun found => next found.1)
      (modifyGet (Parser.peek distance) >>= fun found => other found.1) change left right := by
    apply Mirrors.peekBoth inner solid reachable
    intro found seen left' opposite alike glimpses isNext
    rw [glimpses.question other blind]
    exact later found.1 left' opposite alike isNext
  exact looks

/-- A word is taken if it is next in both runs, whose texts are the same. -/
theorem Mirrors.acceptWord {word : String} {next other : Bool → Parse β}
    (later : ∀ found left right, Mirrors pairing false before after (next found) (other found)
      change left right) :
    Mirrors pairing false before after (acceptWord word >>= next) (acceptWord word >>= other) change
      left right := by
  have applied : ∀ parser : Parser, Parse.acceptWord word parser =
      if parser.isAtWord word then (true, parser.consume) else (false, parser) := by
    intro parser
    change (if parser.isAtWord word then _ else _ : Parse Bool) parser = _
    split <;> rfl
  have same : pairing.pairs before left right → right.isAtWord word = left.isAtWord word := by
    intro pairs
    unfold Parser.isAtWord
    by_cases found : left.ahead = .identifier
    · have text := lawful.lexeme pairs (by rw [found]; rfl)
      have both : right.ahead = .identifier ↔ left.ahead = .identifier := ahead_iff rfl pairs
      simp only [Context.identifierAt, text, both]
    · have absent := (not_congr (ahead_iff rfl pairs)).2 found
      rw [decide_eq_false found, decide_eq_false absent, Bool.false_and, Bool.false_and]
  have known := applied left
  by_cases found : left.isAtWord word = true
  · rw [if_pos found] at known
    have ahead : left.ahead = .identifier := by
      simp only [Parser.isAtWord, Bool.and_eq_true, decide_eq_true_eq] at found
      exact found.1
    apply Mirrors.step known _ lawful.good_of_consume _ (later true _ right.consume)
    · intro pairs _
      rw [applied, if_pos ((same pairs).trans found)]
    · intro pairs good
      refine ⟨(fun isEager => nomatch isEager), ?_⟩
      exact lawful.consume pairs (isAtEnd_of_ahead (by decide) ahead) (by rw [ahead]; rfl) good
  · rw [if_neg found] at known
    apply Mirrors.step known _ id _ (later false left right)
    · intro pairs _
      rw [applied, if_neg (by rwa [same pairs])]
    · exact fun pairs _ => ⟨(fun isEager => nomatch isEager), .refl pairs⟩

end Looking

section Nesting

variable {change : α → α}

theorem refuse_mirrors {refused : Span → α}
    (same : ∀ span, refused (pairing.move span) = change (refused span)) :
    Mirrors pairing eager before after (refuse refused) (refuse refused) change left right := by
  have known : ∀ parser : Parser, (modifyGet Parser.refuseNesting : Parse Span) parser =
      (parser.aheadSpan, Mishap.nesting.apply parser) := fun _ => rfl
  have otherKnown : pairing.Forgiving → pairing.pairs before left right →
      (modifyGet Parser.refuseNesting : Parse Span) right =
        (pairing.move left.aheadSpan, Mishap.nesting.apply right) := by
    intro forgiving pairs
    rw [known, forgiving.aheadSpan pairs, forgiving.move]
    rfl
  have spoils : Mirrors pairing eager before after
      ((modifyGet Parser.refuseNesting : Parse Span) >>= fun span => pure (refused span))
      ((modifyGet Parser.refuseNesting : Parse Span) >>= fun span => pure (refused span)) change
      left right :=
    Mirrors.spoil .nesting (known left) otherKnown fun _ => Mirrors.pure (same _)
  exact spoils

theorem good_of_leaveNesting {parser : Parser} (good : pairing.good parser.leaveNesting) :
    pairing.good parser := by
  unfold Parser.leaveNesting at good
  split at good
  · exact (lawful.good_atDepth parser _).1 good
  · exact (lawful.mishap (.raised .leaveWithoutEnter) parser good).good parser

theorem leaveNesting_steps (pairs : pairing.pairs before left right)
    (good : pairing.good left.leaveNesting) :
    pairing.Steps before left right left.leaveNesting right.leaveNesting := by
  have depth := lawful.depth pairs
  unfold Parser.leaveNesting at good ⊢
  rw [depth]
  split
  · exact ⟨lawful.atDepth pairs _, Nat.le_refl _⟩
  · rename_i outermost
    rw [if_neg outermost] at good
    have forgiving := lawful.mishap (.raised .leaveWithoutEnter) left good
    exact forgiving.steps pairs (forgiving.mishap pairs (.raised .leaveWithoutEnter))

theorem nested_mirrors {refused : Span → α} {production : Parse α}
    (same : ∀ span, refused (pairing.move span) = change (refused span))
    (inside : ∀ right, Mirrors pairing eager before after production production change
      { left with depth := left.depth + 1 } right) :
    Mirrors pairing eager before after (nested refused production)
      (nested refused production) change left right := by
  by_cases room : left.depth < nestingLimit
  · have enters : ∀ parser : Parser, parser.depth < nestingLimit →
        nested refused production parser =
          ((production { parser with depth := parser.depth + 1 }).1,
            (production { parser with depth := parser.depth + 1 }).2.leaveNesting) := by
      intro parser room
      have entered : enterNesting parser = (none, { parser with depth := parser.depth + 1 }) := by
        change parser.enterNesting = _
        rw [Parser.enterNesting, if_pos room]
      rw [nested, bind_apply, entered]
      rfl
    constructor
    · rw [enters left room]
      intro final
      have started := (inside right).backward (good_of_leaveNesting final)
      exact (lawful.good_atDepth left _).1 started
    · intro pairs final
      have depth := lawful.depth pairs
      rw [enters left room] at final ⊢
      rw [enters right (by rwa [depth]), depth]
      have inner := (inside { right with depth := left.depth + 1 }).forward
        (lawful.atDepth pairs _) (good_of_leaveNesting final)
      have leaves := leaveNesting_steps inner.steps.pairs final
      exact ⟨⟨leaves.pairs, (inner.steps.trans leaves).progress⟩, inner.solid, inner.value⟩
  · have refuses : ∀ parser : Parser, ¬parser.depth < nestingLimit →
        nested refused production parser = refuse refused parser := by
      intro parser room
      have refused : enterNesting parser =
          (some parser.refuseNesting.1, parser.refuseNesting.2) := by
        change parser.enterNesting = _
        rw [Parser.enterNesting, if_neg room]
      rw [nested, bind_apply, refused]
      rfl
    apply Mirrors.congr (refuses left room) _ (refuse_mirrors same)
    exact fun pairs _ => refuses right (by rwa [lawful.depth pairs])

end Nesting

section Repetition

variable {change : α → α} {changeLast : β → β} {item mirrorItem : Parse α}

/-- After an item a repetition goes on if something was consumed, and is at fault otherwise. -/
theorem afterRound_inl (more : Parse Bool) (item : Parse (α ⊕ β)) (bound : Nat) (value : α)
    (next : Parser) :
    afterRound more item bound (some (.inl value)) next =
      if next.remaining < bound then
        (Prod.map (List.cons value) id <$> repeatUntil more item) next
      else (([value], none), Mishap.apply (.raised .stalled) next) :=
  rfl

theorem good_of_afterRound {more : Parse Bool} {item : Parse (α ⊕ β)} {bound : Nat} {value : α}
    {next : Parser}
    (goesOn : next.remaining < bound → pairing.good (repeatUntil more item next).2 →
      pairing.good next)
    (good : pairing.good (afterRound more item bound (some (.inl value)) next).2) :
    pairing.good next := by
  rw [afterRound_inl] at good
  split at good
  · rename_i progress
    exact goesOn progress good
  · exact (lawful.mishap (.raised .stalled) next good).good next

/-- A repetition is mirrored after an item if the second run consumes something where the first does,
and where all is forgiven only there. -/
theorem afterRound_mirrors {more mirrorMore : Parse Bool} {item mirrorItem : Parse (α ⊕ β)}
    {bound otherBound : Nat} {value : α} {next opposite : Parser}
    (goesOn : next.remaining < bound → Mirrors pairing false before before
      (repeatUntil more item) (repeatUntil mirrorMore mirrorItem)
      (Prod.map (List.map change) (Option.map changeLast)) next opposite)
    (progress : next.remaining < bound → opposite.remaining < otherBound)
    (onlyThen : pairing.Forgiving → opposite.remaining < otherBound → next.remaining < bound) :
    Mirrors pairing false before before (afterRound more item bound (some (.inl value)))
      (afterRound mirrorMore mirrorItem otherBound (some (.inl (change value))))
      (Prod.map (List.map change) (Option.map changeLast)) next opposite := by
  by_cases consumed : next.remaining < bound
  · have later : Mirrors pairing false before before
        (Prod.map (List.cons value) id <$> repeatUntil more item)
        (Prod.map (List.cons (change value)) id <$> repeatUntil mirrorMore mirrorItem)
        (Prod.map (List.map change) (Option.map changeLast)) next opposite :=
      (goesOn consumed).map fun _ => rfl
    apply Mirrors.congr _ _ later
    · rw [afterRound_inl, if_pos consumed]
    · intro _ _
      rw [afterRound_inl, if_pos (progress consumed)]
  · have stalls := afterRound_inl more item bound value next
    rw [if_neg consumed] at stalls
    constructor
    · exact good_of_afterRound fun consumed' => absurd consumed' consumed
    · rw [stalls]
      intro pairs good
      have forgiving := lawful.mishap (.raised .stalled) next good
      rw [afterRound_inl, if_neg fun less => consumed (onlyThen forgiving less)]
      exact ⟨forgiving.steps pairs (forgiving.mishap pairs (.raised .stalled)),
        (fun isEager => nomatch isEager), rfl⟩

/-- By induction on what remains: a round in which the first run consumes something is one in which
the second does. Only rounds with items of some kind have to be mirrored if no others occur. -/
theorem repeatUntil_mirrors_of {allowed : α → Prop} {more mirrorMore : Parse Bool}
    {item mirrorItem : Parse (α ⊕ β)}
    (rounds : ∀ left right,
      (∀ value, (oneRound more item left).1 = some (.inl value) → allowed value) →
      Mirrors pairing false before before (oneRound more item) (oneRound mirrorMore mirrorItem)
        (Option.map (Sum.map change changeLast)) left right)
    (left right : Parser) (all : ∀ value ∈ (repeatUntil more item left).1.1, allowed value) :
    Mirrors pairing false before before (repeatUntil more item)
      (repeatUntil mirrorMore mirrorItem) (Prod.map (List.map change) (Option.map changeLast))
      left right := by
  induction bound : left.remaining using Nat.strong_induction_on generalizing left right with
  | _ bound induction =>
    subst bound
    have unrolled : repeatUntil more item left =
        (oneRound more item >>= afterRound more item left.remaining) left :=
      repeatBelow_eq more item left.remaining left
    have otherUnrolled : repeatUntil mirrorMore mirrorItem right =
        (oneRound mirrorMore mirrorItem >>= afterRound mirrorMore mirrorItem right.remaining)
          right :=
      repeatBelow_eq mirrorMore mirrorItem right.remaining right
    rw [unrolled, bind_apply] at all
    apply Mirrors.congr unrolled fun _ _ => otherUnrolled
    match found : (oneRound more item left).1 with
    | none =>
      apply Mirrors.bind_here (rounds left right (by simp [found]))
      rw [found]
      exact fun opposite => Mirrors.pure rfl
    | some (.inr last) =>
      apply Mirrors.bind_here (rounds left right (by simp [found]))
      rw [found]
      exact fun opposite => Mirrors.pure rfl
    | some (.inl value) =>
      rw [found, afterRound_inl] at all
      have head : allowed value := by
        apply all value
        split
        · exact List.mem_cons_self
        · exact List.mem_singleton_self value
      have tail : (oneRound more item left).2.remaining < left.remaining →
          ∀ value ∈ (repeatUntil more item (oneRound more item left).2).1.1, allowed value := by
        intro consumed value member
        apply all value
        rw [if_pos consumed]
        exact List.mem_cons_of_mem _ member
      have round := rounds left right (by simpa [found] using head)
      apply Mirrors.bind_steps round
      · rw [found]
        exact good_of_afterRound fun consumed =>
          (induction _ consumed _ right (tail consumed) rfl).backward
      · rw [found]
        intro opposite pairs steps
        apply afterRound_mirrors fun consumed =>
          induction _ consumed _ opposite (tail consumed) rfl
        · have progress := steps.progress
          omega
        · intro forgiving
          rw [forgiving.exact steps.pairs, forgiving.exact pairs]
          exact id

theorem repeatUntil_mirrors {more mirrorMore : Parse Bool} {item mirrorItem : Parse (α ⊕ β)}
    (rounds : ∀ left right, Mirrors pairing false before before (oneRound more item)
      (oneRound mirrorMore mirrorItem) (Option.map (Sum.map change changeLast)) left right)
    (left right : Parser) :
    Mirrors pairing false before before (repeatUntil more item)
      (repeatUntil mirrorMore mirrorItem) (Prod.map (List.map change) (Option.map changeLast))
      left right :=
  repeatUntil_mirrors_of (fun left right (_ : ∀ _, _ → True) => rounds left right) left right
    fun _ _ => trivial

theorem many_mirrors_of {allowed : α → Prop} {more mirrorMore : Parse Bool}
    (rounds : ∀ left right, (∀ value, (oneRound more item left).1 = some value → allowed value) →
      Mirrors pairing false before before (oneRound more item) (oneRound mirrorMore mirrorItem)
        (Option.map change) left right)
    (left right : Parser) (all : ∀ value ∈ (many more item left).1, allowed value) :
    Mirrors pairing false before before (many more item) (many mirrorMore mirrorItem)
      (List.map change) left right := by
  have each : ∀ left right,
      (∀ value, (oneRound more (Sum.inl <$> item : Parse (α ⊕ Empty)) left).1 =
        some (.inl value) → allowed value) →
      Mirrors pairing false before before
        (oneRound more (Sum.inl <$> item : Parse (α ⊕ Empty)))
        (oneRound mirrorMore (Sum.inl <$> mirrorItem : Parse (α ⊕ Empty)))
        (Option.map (Sum.map change id)) left right := by
    intro left right all
    rw [oneRound_map, map_apply] at all
    apply Mirrors.congr (oneRound_map more item Sum.inl left)
      fun _ _ => oneRound_map mirrorMore mirrorItem Sum.inl right
    apply (rounds left right (fun value found => all value (by simp [found]))).map
    intro found
    cases found <;> rfl
  exact (repeatUntil_mirrors_of each left right all).map fun found => rfl

theorem many_mirrors {more mirrorMore : Parse Bool}
    (rounds : ∀ left right, Mirrors pairing false before before (oneRound more item)
      (oneRound mirrorMore mirrorItem) (Option.map change) left right)
    (left right : Parser) :
    Mirrors pairing false before before (many more item) (many mirrorMore mirrorItem)
      (List.map change) left right :=
  many_mirrors_of (fun left right (_ : ∀ _, _ → True) => rounds left right) left right
    fun _ _ => trivial

/-- Items for as long as the lookahead is of a kind that does not tell the tokens at the seam apart. -/
theorem many_while_mirrors {isKind : Token → Bool}
    (blind : isKind .semicolon = isKind .closeBrace)
    (each : ∀ left right, isKind left.ahead = true → Mirrors pairing false before before item
      mirrorItem change left right) (left right : Parser) :
    Mirrors pairing false before before (many (do return isKind (← Parse.ahead)) item)
      (many (do return isKind (← Parse.ahead)) mirrorItem) (List.map change) left right := by
  apply many_mirrors
  intro left right
  unfold oneRound
  simp only [mirrors_bind_assoc]
  apply Mirrors.ahead_blind (by rw [blind])
  simp only [mirrors_pure_bind]
  split
  · rename_i goesOn
    exact (each left right goesOn).map fun value => rfl
  · exact Mirrors.pure rfl

theorem many_accept_mirrors {separator : Token} (plain : separator.isPlain = true)
    (blind : separator.isTelling = false)
    (each : ∀ left right, Mirrors pairing false before before item mirrorItem change left right)
    (left right : Parser) :
    Mirrors pairing false before before (many (accept separator) item)
      (many (accept separator) mirrorItem) (List.map change) left right := by
  apply many_mirrors
  intro left right
  apply Mirrors.accept_plain plain blind
  · exact fun left right => (each left right).map fun value => rfl
  · exact fun _ => Mirrors.pure rfl

theorem many_isAt_mirrors {token : Token}
    (blind : token.isTelling = false)
    (each : ∀ left right, left.ahead = token → Mirrors pairing false before before item mirrorItem
      change left right) (left right : Parser) :
    Mirrors pairing false before before (many (isAt token) item) (many (isAt token) mirrorItem)
      (List.map change) left right := by
  apply many_mirrors
  intro left right
  apply Mirrors.isAt blind
  · exact fun found => (each left right found).map fun value => rfl
  · exact fun _ => Mirrors.pure rfl

theorem separated_mirrors {separator : Token} (plain : separator.isPlain = true)
    (blind : separator.isTelling = false)
    (each : ∀ left right, Mirrors pairing eager before before item mirrorItem change left right)
    (left right : Parser) :
    Mirrors pairing eager before before (separated separator item) (separated separator mirrorItem)
      (List.map change) left right := by
  unfold separated
  apply Mirrors.bind (each left right)
  intro first left right
  apply Mirrors.bind (many_accept_mirrors plain blind (fun left right => (each left right).lax)
    left right)
  exact fun later left right => Mirrors.pure rfl

end Repetition

end Parse

end Offside
