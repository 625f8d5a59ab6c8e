import Offside.Proofs.Deepening.Twins

/-!
The fork itself. However many segments a qualifier has, whoever reads it segment by segment comes out
behind its last dot, and so do the two runs together: the first over one segment, the second over
several. They meet again in front of the operator, or in front of the last dot where a module is named.
-/

namespace Offside

set_option autoImplicit false

open Offside.Lexical

def Seen.IsClose (seen : Seen) : Prop := seen.comments = 0 ∧ seen.token ≠ .endOfInput

namespace Parser

/-- What neither pulling nor consuming a token changes. -/
structure Carries (before after : Parser) : Prop where
  depth : after.depth = before.depth
  steady : ∀ texts, before.Steady texts → after.Steady texts
  calm : ∀ texts, before.Calm texts → after.Calm texts

namespace Carries

variable {before middle after : Parser}

theorem refl (parser : Parser) : Carries parser parser := ⟨rfl, fun _ => id, fun _ => id⟩

theorem trans (first : Carries before middle) (second : Carries middle after) :
    Carries before after :=
  ⟨second.depth.trans first.depth, fun texts => second.steady texts ∘ first.steady texts,
    fun texts => second.calm texts ∘ first.calm texts⟩

theorem consume (parser : Parser) : Carries parser parser.consume :=
  ⟨(consume_keeps parser).2.1, fun _ => Steady.consume, fun _ => Calm.consume⟩

theorem fill (count : Nat) (parser : Parser) : Carries parser (parser.fill count) := by
  induction count generalizing parser with
  | zero => exact refl parser
  | succ count induction =>
    have one : Carries parser (parser.fill 1) :=
      ⟨rfl, fun _ => Steady.fill, fun _ => Calm.fill_one⟩
    exact one.trans (induction (parser.fill 1))

theorem peek {distance : Nat} (near : 1 ≤ distance) (reachable : distance ≤ reach)
    (parser : Parser) : Carries parser (parser.peek distance).2 := by
  rw [peek_apply near reachable]
  exact fill _ parser

end Carries

/-- Pulling tokens that stand close changes only where they are kept. -/
theorem fill_close {parser : Parser} {count : Nat}
    (close : ∀ place, parser.buffered.length < place → place ≤ parser.buffered.length + count →
      ∃ seen, parser.sight[place]? = some seen ∧ seen.IsClose) :
    (parser.fill count).sight = parser.sight ∧
      (parser.fill count).remaining = parser.remaining := by
  induction count generalizing parser with
  | zero => exact ⟨rfl, rfl⟩
  | succ count induction =>
    obtain ⟨next, found, none, inner⟩ := close (parser.buffered.length + 1) (by omega) (by omega)
    obtain ⟨inside, same⟩ := List.getElem?_eq_some_iff.1 found
    have split : parser.sight = parser.sight.take (parser.buffered.length + 1) ++
        next :: parser.sight.drop (parser.buffered.length + 2) := by
      rw [← same, ← List.drop_eq_getElem_cons inside, List.take_append_drop]
    obtain ⟨seen, remains⟩ := sight_fill split (by rw [List.length_take]; omega)
    rw [Seen.near_of_none none, ← split] at seen
    rw [none, Detour.isInner_of_ne inner, Bool.toNat_true] at remains
    have length := length_buffered_fill 1 parser
    obtain ⟨seenLater, remainsLater⟩ := @induction (parser.fill 1) (by
      rw [seen, length]
      exact fun place low high => close place (by omega) (by omega))
    exact ⟨seenLater.trans seen, remainsLater.trans (by omega)⟩

/-- Looking at tokens that stand close changes only where they are kept. -/
theorem peek_close {parser : Parser} {distance : Nat} (near : 1 ≤ distance)
    (reachable : distance ≤ reach)
    (close : ∀ place, 1 ≤ place → place ≤ distance →
      ∃ seen, parser.sight[place]? = some seen ∧ seen.IsClose) :
    (parser.peek distance).2.sight = parser.sight ∧
      (parser.peek distance).2.remaining = parser.remaining ∧
      (parser.peek distance).2.buffered.length = max distance parser.buffered.length := by
  rw [peek_apply near reachable]
  obtain ⟨seen, remains⟩ := @fill_close parser (distance - parser.buffered.length)
    fun place low high => close place (by omega) (by omega)
  refine ⟨seen, remains, ?_⟩
  rw [length_buffered_fill]
  omega

theorem consume_close {parser : Parser} {first second : Seen} {later : List Seen}
    (sight : parser.sight = first :: second :: later) (inner : first.token ≠ .endOfInput)
    (close : second.IsClose) :
    parser.consume.sight = second :: later ∧ parser.consume.remaining + 1 = parser.remaining := by
  obtain ⟨seen, remains⟩ := sight_consume sight
  rw [Seen.near_of_none close.1] at seen
  rw [close.1, Detour.isInner_of_ne inner, Detour.isInner_of_ne close.2, Bool.toNat_true] at remains
  refine ⟨seen, ?_⟩
  split at remains <;> omega

end Parser

namespace Haskell.Grammar

open Offside.Parser Offside.Parse

section Climbing

variable {file : FileId} {count : Nat} {parser : Parser} {last : Seen} {rest : List Seen}

theorem ahead_of_sight {first : Seen} {later : List Seen} (sight : parser.sight = first :: later) :
    parser.ahead = first.token ∧ parser.aheadSpan = first.span := by
  have here := upcoming_of_sight parser 0 (congrArg (·[0]?) sight)
  exact ⟨congrArg Prod.fst here, congrArg Prod.snd here⟩

theorem climb_one {segment dot next : Seen} {later : List Seen}
    (sight : parser.sight = segment :: dot :: next :: later)
    (climbs : Climbs file (count + 1) (segment :: dot :: next :: later) (last :: rest))
    (short : parser.buffered.length ≤ 2) :
    (qualifierFollows parser).1 = true ∧
      (qualifier (qualifierFollows parser).2).1 = .simple segment.span ∧
      (qualifier (qualifierFollows parser).2).2.sight = next :: later ∧
      (qualifier (qualifierFollows parser).2).2.buffered = [] ∧
      (qualifier (qualifierFollows parser).2).2.remaining + 2 = parser.remaining ∧
      Carries parser (qualifier (qualifierFollows parser).2).2 := by
  cases climbs with
  | step proper place isDot placeDot qualified close closeNext touches touchesNext higher =>
    have innerNext := Detour.inner_of_qualified qualified
    have closeDot : dot.IsClose := ⟨close, by rw [isDot]; decide⟩
    have isClose : ∀ place, 1 ≤ place → place ≤ 2 →
        ∃ seen, parser.sight[place]? = some seen ∧ seen.IsClose := by
      intro place low high
      rw [sight]
      match place, low, high with
      | 1, _, _ => exact ⟨dot, rfl, closeDot⟩
      | 2, _, _ => exact ⟨next, rfl, closeNext, innerNext⟩
    obtain ⟨ahead, aheadSpan⟩ := ahead_of_sight sight
    have second := upcoming_of_sight parser 1 (congrArg (·[1]?) sight)
    have third := upcoming_of_sight parser 2 (congrArg (·[2]?) sight)
    have first := upcoming_of_sight parser 0 (congrArg (·[0]?) sight)
    have follows : (qualifierFollows parser).1 = true := by
      rw [(qualifierFollows_tells parser.upcoming parser rfl).2]
      simp [qualifies, first, second, third, proper, isDot, qualified, touches, touchesNext]
    have state : (qualifierFollows parser).2 = ((parser.peek 1).2.peek 2).2 := by
      rw [qualifierFollows_state, if_pos (ahead.trans proper), if_pos (by rw [second]; exact isDot)]
    obtain ⟨seen, remains, length⟩ := @peek_close parser 1 (by decide)
      (by decide) fun place low high => isClose place low (by omega)
    obtain ⟨seen', remains', length'⟩ := @peek_close (parser.peek 1).2 2
      (by decide) (by decide) (by rw [seen]; exact isClose)
    have carries : Carries parser ((parser.peek 1).2.peek 2).2 :=
      (Carries.peek (by decide) (by decide) parser).trans
        (Carries.peek (by decide) (by decide) _)
    rw [state]
    generalize ((parser.peek 1).2.peek 2).2 = looked at *
    have whole := seen'.trans (seen.trans sight)
    obtain ⟨atDot, fewer⟩ := consume_close whole (by rw [proper]; decide) closeDot
    obtain ⟨atNext, fewer'⟩ := consume_close atDot closeDot.2 ⟨closeNext, innerNext⟩
    have read : qualifier looked = (.simple looked.aheadSpan, looked.consume.consume) := rfl
    rw [read]
    refine ⟨follows, congrArg Name.simple (ahead_of_sight whole).2, atNext, ?_, ?_, ?_⟩
    · rw [← List.length_eq_zero_iff, Course.Pairs.length_buffered_consume,
        Course.Pairs.length_buffered_consume]
      omega
    · simp only
      omega
    · exact carries.trans ((Carries.consume looked).trans (Carries.consume _))

theorem climb (climbs : Climbs file count parser.sight (last :: rest))
    (symbol : last.token.isOperator = true) (short : parser.buffered.length ≤ 2) :
    ∃ spans : List Span,
      (many qualifierFollows qualifier parser).1 = spans.map .simple ∧ spans.length = count ∧
      (∀ span ∈ spans, span.file = file) ∧ (0 < count → spans.head? = some parser.aheadSpan) ∧
      (many qualifierFollows qualifier parser).2.sight = last :: rest ∧
      (parser.buffered = [] ∨ 0 < count →
        (many qualifierFollows qualifier parser).2.buffered = []) ∧
      (many qualifierFollows qualifier parser).2.remaining + 2 * count = parser.remaining ∧
      Carries parser (many qualifierFollows qualifier parser).2 := by
  generalize whole : parser.sight = sight at climbs
  generalize top : last :: rest = tops at climbs
  induction climbs generalizing parser with
  | top =>
    subst top
    have ahead := (ahead_of_sight whole).1
    have other : parser.ahead ≠ .properIdentifier := by
      rw [ahead]
      rintro same
      rw [same] at symbol
      cases symbol
    have stops : many qualifierFollows qualifier parser = ([], parser) := by
      have state := qualifierFollows_state parser
      rw [if_neg other] at state
      have missed : (qualifierFollows parser).1 = false := by
        rw [(qualifierFollows_tells parser.upcoming parser rfl).2]
        have here := upcoming_of_sight parser 0 (congrArg (·[0]?) whole)
        rw [ahead] at other
        simp [qualifies, here, other]
      rw [many_unroll, missed, state]
      rfl
    rw [stops]
    exact ⟨[], rfl, rfl, by simp, by simp, whole, fun drained => drained.resolve_right (by simp), rfl,
      .refl parser⟩
  | @step count segment dot next later rest proper place isDot placeDot qualified close closeNext
      touches touchesNext higher induction =>
      subst top
      obtain ⟨follows, value, seen, empty, fewer, carries⟩ := climb_one whole
        (.step proper place isDot placeDot qualified close closeNext touches touchesNext higher) short
      have unrolled := many_unroll qualifierFollows qualifier parser
      rw [follows, if_pos rfl, if_pos (by omega), value] at unrolled
      generalize (qualifier (qualifierFollows parser).2).2 = next at *
      obtain ⟨spans, values, length, files, -, sight, drained, remains, onward⟩ :=
        induction (by rw [empty]; exact Nat.zero_le 2) seen rfl
      rw [unrolled]
      refine ⟨segment.span :: spans, by rw [values]; rfl, by rw [List.length_cons, length], ?_,
        fun _ => by rw [(ahead_of_sight whole).2]; rfl, sight, fun _ => drained (.inl empty), ?_,
        carries.trans onward⟩
      · exact List.forall_mem_cons.2 ⟨place, files⟩
      · simp only
        omega

end Climbing

section Together

variable {detour : Detour} {left right : Parser}

theorem exists_fork (twin : detour.Twin left right) (forked : detour.AtFork left) :
    ∃ last lasts other others, Climbs detour.fork.file 1 left.sight (last :: lasts) ∧
      Climbs detour.fork.file detour.depth right.sight (other :: others) ∧
      last.token.isOperator = true ∧ detour.Sees (last :: lasts) (other :: others) := by
  obtain ⟨behind, whole⟩ := exists_sight left
  obtain ⟨behind', whole'⟩ := exists_sight right
  have sees := twin.sees
  rw [whole, whole'] at sees ⊢
  cases sees with
  | ended ended =>
    rw [forked.1] at ended
    cases ended
  | further inner apart => exact absurd forked apart.not_forked
  | fork comments place below above symbol later =>
    exact ⟨_, _, _, _, below, above, symbol, later⟩

theorem apart_of_ahead {parser : Parser} (other : parser.ahead ≠ .properIdentifier) :
    ¬detour.AtFork parser :=
  fun forked => other forked.1

theorem apart_of_operator {parser : Parser} {last : Seen} {rest : List Seen}
    (sight : parser.sight = last :: rest) (symbol : last.token.isOperator = true) :
    ¬detour.AtFork parser := by
  apply apart_of_ahead
  rw [(ahead_of_sight sight).1]
  intro same
  rw [same] at symbol
  cases symbol

/-- Segments of one file look alike once their places are left out. -/
theorem bare_segments {file : FileId} {spans : List Span} (files : ∀ span ∈ spans, span.file = file) :
    (spans.map Name.simple).map Name.bare =
      List.replicate spans.length (.simple (.point .origin file)) := by
  rw [List.eq_replicate_iff]
  refine ⟨by simp, ?_⟩
  intro name member
  simp only [List.map_map, List.mem_map, Function.comp_apply] at member
  obtain ⟨span, among, rfl⟩ := member
  simp [Span.blank, files span among]

/-- By induction on what remains: qualifiers are read by both runs, and the fork takes them from one
segment to several. -/
theorem qualifiers_steps (twin : detour.Twin left right)
    (clean : (many qualifierFollows qualifier left).2.Clean) :
    detour.Steps left right (many qualifierFollows qualifier left).2
        (many qualifierFollows qualifier right).2 ∧
      (many qualifierFollows qualifier right).1.map Name.bare =
        (many qualifierFollows qualifier left).1.flatMap
          (Name.deepenedSegment detour.fork detour.depth) ∧
      ¬detour.AtFork (many qualifierFollows qualifier left).2 := by
  induction bound : left.remaining using Nat.strong_induction_on generalizing left right with
  | _ bound induction =>
    subst bound
    by_cases forked : detour.AtFork left
    · obtain ⟨last, lasts, other, others, below, above, symbol, later⟩ := exists_fork twin forked
      have symbol' : other.token.isOperator = true := by rw [later.head.token]; exact symbol
      obtain ⟨spans, values, length, -, first, sight, drained, remains, carries⟩ :=
        climb below symbol twin.short
      obtain ⟨spans', values', length', files', -, sight', drained', remains', carries'⟩ :=
        climb above symbol' (by rw [twin.buffered]; exact twin.short)
      have positive := detour.positive
      have alone : spans = [detour.fork] := by
        obtain ⟨span, rfl⟩ := List.length_eq_one_iff.1 length
        rw [List.head?_cons] at first
        rw [Option.some.inj (first Nat.one_pos)]
        exact congrArg (fun span => [span]) forked.2
      refine ⟨⟨?_, by omega⟩, ?_, apart_of_operator sight symbol⟩
      · exact
          { sees := by rw [sight, sight']; exact later
            buffered := by rw [drained (.inr Nat.one_pos), drained' (.inr positive)]
            short := by simp [drained (.inr Nat.one_pos)]
            depth := carries'.depth.trans (twin.depth.trans carries.depth.symm)
            steady := carries.steady _ twin.steady
            calm := carries'.calm _ twin.calm }
      · rw [values, values', alone, bare_segments files', length']
        simp [Name.deepenedSegment, Span.blank]
    · have same : (qualifierFollows right).1 = (qualifierFollows left).1 := by
        rw [(qualifierFollows_tells left.upcoming left rfl).2,
          (qualifierFollows_tells right.upcoming right rfl).2]
        exact qualifies_alike twin forked
      have asked := qualifierFollows_steps twin
      obtain ⟨stands, told⟩ := qualifierFollows_tells left.upcoming left rfl
      have ahead : (qualifierFollows left).2.nearest = left.nearest := by
        have here := congrArg (·.get 0) stands
        exact congrArg₂ (Seen.mk 0) (congrArg Prod.fst here) (congrArg Prod.snd here)
      have apart : ¬detour.AtFork (qualifierFollows left).2 := by
        rw [Detour.AtFork, ahead]
        exact forked
      rw [many_unroll] at clean
      rw [many_unroll, many_unroll qualifierFollows qualifier right, same]
      split
      · rename_i follows
        rw [if_pos follows] at clean
        rw [follows] at told
        simp only [qualifies, true_eq_decide_iff] at told
        generalize (qualifierFollows left).2 = looked at *
        generalize (qualifierFollows right).2 = mirror at *
        have proper : looked.ahead = .properIdentifier :=
          (congrArg Seen.token ahead).trans told.1
        have dot : looked.consume.ahead = .dot := by
          rw [← stands, upcoming_consume] at told
          exact told.2.1
        have first := asked.twin.consume (by rw [proper]; decide) apart
        have second := first.twin.consume (by rw [dot]; decide)
          (apart_of_ahead (by rw [dot]; decide))
        have steps := asked.trans (first.trans second)
        have read : ∀ parser, qualifier parser =
            (.simple parser.aheadSpan, parser.consume.consume) := fun _ => rfl
        simp only [read] at clean ⊢
        by_cases consumed : looked.consume.consume.remaining < left.remaining
        · rw [if_pos consumed] at clean ⊢
          have progress := steps.progress
          rw [if_pos (by omega)]
          obtain ⟨later, names, final⟩ := induction _ consumed steps.twin clean rfl
          refine ⟨steps.trans later, ?_, final⟩
          have other : looked.aheadSpan ≠ detour.fork := fun same => apart ⟨proper, same⟩
          rw [List.map_cons, List.flatMap_cons, names, Name.deepenedSegment, if_neg other]
          simp [asked.twin.blank]
        · rw [if_neg consumed] at clean
          exact absurd clean (raise_spoils _ _)
      · exact ⟨asked, rfl, apart⟩

end Together

section Modules

def laterSegments : Parse (List Name) :=
  many (do if ← isAt .dot then return (← Parse.peek 1) = .properIdentifier else return false)
    (do Parse.consume; properIdentifier)

def segmentsOfModule : Parse (List Name) := do
  let first ← properIdentifier
  let later ← laterSegments
  return first :: later

theorem moduleName_eq : moduleName = segmentsOfModule >>= ofSegments := rfl

variable {parser : Parser}

theorem properIdentifier_apply (proper : parser.ahead = .properIdentifier) :
    properIdentifier parser = (.simple parser.aheadSpan, parser.consume) := by
  have expected := expect_apply (show Token.properIdentifier ≠ .endOfInput by decide) parser
  rw [if_pos proper] at expected
  have asked : Parse.aheadSpan parser = (parser.aheadSpan, parser) := rfl
  rw [properIdentifier, nameAt, bind_apply, asked, bind_apply, expected]
  rfl

theorem segmentsOfModule_apply (proper : parser.ahead = .properIdentifier) :
    segmentsOfModule parser =
      (.simple parser.aheadSpan :: (laterSegments parser.consume).1,
        (laterSegments parser.consume).2) := by
  rw [segmentsOfModule, bind_apply, properIdentifier_apply proper]
  rfl

theorem laterSegments_of_other (other : parser.ahead ≠ .dot) :
    laterSegments parser = ([], parser) := by
  have missed : isAt .dot parser = (false, parser) := by
    rw [← decide_eq_false other]
    rfl
  rw [laterSegments, many_unroll, bind_apply, missed]
  rfl

theorem dotted_apply (dot : parser.ahead = .dot) :
    (do if ← isAt .dot then return (← Parse.peek 1) = .properIdentifier else return false :
        Parse Bool) parser =
      (decide ((parser.upcoming.get 1).1 = .properIdentifier), (parser.peek 1).2) := by
  have found : isAt .dot parser = (true, parser) := by
    rw [← decide_eq_true dot]
    rfl
  rw [bind_apply, found, ← (glimpse (by decide) (by decide) parser).1]
  rfl

theorem laterSegments_of_stop (dot : parser.ahead = .dot)
    (other : (parser.upcoming.get 1).1 ≠ .properIdentifier) :
    laterSegments parser = ([], (parser.peek 1).2) := by
  rw [laterSegments, many_unroll, dotted_apply dot, decide_eq_false other]
  rfl

theorem nearest_of_upcoming {before after : Parser} (stands : after.upcoming = before.upcoming) :
    after.nearest = before.nearest := by
  have first := congrArg (·.get 0) stands
  exact congrArg₂ (Seen.mk 0) (congrArg Prod.fst first) (congrArg Prod.snd first)

theorem ahead_of_upcoming {before after : Parser} (stands : after.upcoming = before.upcoming) :
    after.ahead = before.ahead :=
  congrArg Seen.token (nearest_of_upcoming stands)

theorem aheadSpan_of_upcoming {before after : Parser} (stands : after.upcoming = before.upcoming) :
    after.aheadSpan = before.aheadSpan :=
  congrArg Seen.span (nearest_of_upcoming stands)

theorem ahead_peek {distance : Nat} (near : 1 ≤ distance) (within : distance ≤ reach)
    (parser : Parser) : (parser.peek distance).2.nearest = parser.nearest :=
  nearest_of_upcoming (glimpse near within parser).2

theorem ahead_consume_eq (parser : Parser) :
    parser.consume.ahead = (parser.upcoming.get 1).1 := by
  rw [upcoming_consume]
  rfl

theorem laterSegments_of_dotted (dot : parser.ahead = .dot)
    (proper : (parser.upcoming.get 1).1 = .properIdentifier) :
    laterSegments parser = segmentsOfModule (parser.peek 1).2.consume := by
  have stands := (glimpse (show 1 ≤ 1 by decide) (by decide) parser).2
  have atDot : (parser.peek 1).2.ahead = .dot :=
    (congrArg Seen.token (ahead_peek (by decide) (by decide) parser)).trans dot
  have atProper : (parser.peek 1).2.consume.ahead = .properIdentifier := by
    rw [ahead_consume_eq, stands]
    exact proper
  have reads : (do Parse.consume; properIdentifier : Parse Name) (parser.peek 1).2 =
      (.simple (parser.peek 1).2.consume.aheadSpan, (parser.peek 1).2.consume.consume) := by
    have consumes : Parse.consume (parser.peek 1).2 = ((), (parser.peek 1).2.consume) := rfl
    rw [bind_apply, consumes]
    exact properIdentifier_apply atProper
  have fewer : (parser.peek 1).2.consume.consume.remaining < parser.remaining := by
    have looked : Leads (fun _ => True) parser (parser.peek 1).2 :=
      Leads.peek (by decide) (by decide) parser
    have first := remaining_consume_lt (isAtEnd_of_ahead (by decide) atDot)
    have second := remaining_consume_lt (isAtEnd_of_ahead (by decide) atProper)
    have third := looked.remaining_le
    omega
  rw [laterSegments, many_unroll, dotted_apply dot, decide_eq_true proper, if_pos rfl, reads,
    if_pos fewer, segmentsOfModule_apply atProper]
  rfl

/-- Read as the name of a module a whole qualifier is left in front of its last dot. -/
theorem climb_module {file : FileId} {count : Nat} {last : Seen} {rest : List Seen}
    (climbs : Climbs file count parser.sight (last :: rest)) (positive : 0 < count)
    (symbol : last.token.isOperator = true) (short : parser.buffered.length ≤ 2) :
    ∃ (spans : List Span) (dot : Seen),
      (segmentsOfModule parser).1 = spans.map .simple ∧ spans.length = count ∧
      (∀ span ∈ spans, span.file = file) ∧ spans.head? = some parser.aheadSpan ∧
      (segmentsOfModule parser).2.sight = dot :: last :: rest ∧ dot.token = .dot ∧
      dot.comments = 0 ∧ dot.span.file = file ∧ dot.span.stop = last.span.start ∧
      (segmentsOfModule parser).2.buffered.length = 1 ∧
      (segmentsOfModule parser).2.remaining + 2 * count = parser.remaining + 1 ∧
      Carries parser (segmentsOfModule parser).2 := by
  generalize whole : parser.sight = sight at climbs
  generalize top : last :: rest = tops at climbs
  induction climbs generalizing parser with
  | top => cases positive
  | @step count segment dot next later rest proper place isDot placeDot qualified close closeNext
      touches touchesNext higher induction =>
      subst top
      have innerNext := Detour.inner_of_qualified qualified
      have closeDot : dot.IsClose := ⟨close, by rw [isDot]; decide⟩
      obtain ⟨ahead, aheadSpan⟩ := ahead_of_sight whole
      obtain ⟨atDot, fewer⟩ := consume_close whole (by rw [proper]; decide) closeDot
      have length := Course.Pairs.length_buffered_consume parser
      have carries := Carries.consume parser
      rw [segmentsOfModule_apply (ahead.trans proper)]
      generalize parser.consume = behind at *
      have dotAhead := (ahead_of_sight atDot).1.trans isDot
      have second := upcoming_of_sight behind 1 (congrArg (·[1]?) atDot)
      obtain ⟨seen, remains, held⟩ := @peek_close behind 1 (by decide)
        (by decide) (by
          intro place low high
          obtain rfl : place = 1 := by omega
          exact ⟨next, congrArg (·[1]?) atDot, closeNext, innerNext⟩)
      have looks := Carries.peek (show 1 ≤ 1 by decide) (by decide) behind
      cases higher with
      | top =>
        have other : (behind.upcoming.get 1).1 ≠ .properIdentifier := by
          rw [second]
          rintro same
          rw [show last.token = _ from same] at symbol
          cases symbol
        rw [laterSegments_of_stop dotAhead other]
        refine ⟨[segment.span], dot, by rw [aheadSpan]; rfl, rfl, by simpa using place,
          by rw [aheadSpan]; rfl, seen.trans atDot, isDot, close, placeDot, touchesNext, ?_, ?_,
          carries.trans looks⟩
        · rw [held]
          omega
        · simp only
          omega
      | step proper' =>
        have properNext : (behind.upcoming.get 1).1 = .properIdentifier := by
          rw [second]
          exact proper'
        rw [laterSegments_of_dotted dotAhead properNext]
        obtain ⟨atNext, fewer'⟩ := consume_close (seen.trans atDot) closeDot.2
          ⟨closeNext, innerNext⟩
        have length' := Course.Pairs.length_buffered_consume (behind.peek 1).2
        have onward := looks.trans (Carries.consume (behind.peek 1).2)
        generalize (behind.peek 1).2.consume = climbing at *
        obtain ⟨spans, dot, values, long, files, -, sight, isDot, close, placeDot, touches, held',
          remains', carries'⟩ := induction (Nat.succ_pos _) (by omega) atNext rfl
        refine ⟨segment.span :: spans, dot, by rw [values, aheadSpan]; rfl,
          by rw [List.length_cons, long], List.forall_mem_cons.2 ⟨place, files⟩,
          by rw [aheadSpan]; rfl, sight, isDot, close, placeDot, touches, held', ?_,
          carries.trans (onward.trans carries')⟩
        simp only
        omega

variable {detour : Detour} {left right : Parser}

/-- By induction on what remains: the segments of a module's name are read by both runs. -/
theorem segmentsOfModule_steps (twin : detour.Twin left right)
    (proper : left.ahead = .properIdentifier) :
    detour.Steps left right (segmentsOfModule left).2 (segmentsOfModule right).2 ∧
      (segmentsOfModule right).1.map Name.bare =
        (segmentsOfModule left).1.flatMap (Name.deepenedSegment detour.fork detour.depth) := by
  induction bound : left.remaining using Nat.strong_induction_on generalizing left right with
  | _ bound induction =>
    subst bound
    by_cases forked : detour.AtFork left
    · obtain ⟨last, lasts, other, others, below, above, symbol, later⟩ := exists_fork twin forked
      have symbol' : other.token.isOperator = true := by rw [later.head.token]; exact symbol
      have positive := detour.positive
      obtain ⟨spans, dot, values, length, -, first, sight, isDot, close, place, touches, held,
        remains, carries⟩ := climb_module below Nat.one_pos symbol twin.short
      obtain ⟨spans', dot', values', length', files', -, sight', isDot', close', place', touches',
        held', remains', carries'⟩ :=
        climb_module above positive symbol' (by rw [twin.buffered]; exact twin.short)
      have alone : spans = [detour.fork] := by
        obtain ⟨span, rfl⟩ := List.length_eq_one_iff.1 length
        rw [List.head?_cons] at first
        rw [Option.some.inj first]
        exact congrArg (fun span => [span]) forked.2
      refine ⟨⟨?_, by omega⟩, ?_⟩
      · refine
          { sees := ?_
            buffered := by rw [held, held']
            short := by rw [held]; decide
            depth := carries'.depth.trans (twin.depth.trans carries.depth.symm)
            steady := carries.steady _ twin.steady
            calm := carries'.calm _ twin.calm }
        rw [sight, sight']
        refine .further (by rw [isDot]; decide) (fun name => ?_)
          ⟨close'.trans close.symm, isDot'.trans isDot.symm, place'.trans place.symm, ?_⟩
          (iff_of_true touches' touches) later
        · rw [isDot] at name
          simp at name
        · rw [isDot]
          intro lookedUp
          cases lookedUp
      · rw [values, values', alone, bare_segments files', length']
        simp [Name.deepenedSegment, Span.blank]
    · have other : left.aheadSpan ≠ detour.fork := fun same => forked ⟨proper, same⟩
      have first := twin.consume (by rw [proper]; decide) forked
      have fewer := remaining_consume_lt (isAtEnd_of_ahead (by decide) proper)
      rw [segmentsOfModule_apply proper, segmentsOfModule_apply (twin.ahead.trans proper)]
      have heads : ∀ others names : List Name,
          others.map Name.bare =
            names.flatMap (Name.deepenedSegment detour.fork detour.depth) →
          (Name.simple right.aheadSpan :: others).map Name.bare =
            (Name.simple left.aheadSpan :: names).flatMap
              (Name.deepenedSegment detour.fork detour.depth) := by
        intro others names same
        rw [List.map_cons, List.flatMap_cons, same, Name.deepenedSegment, if_neg other]
        simp [twin.blank]
      generalize left.consume = next at *
      generalize right.consume = opposite at *
      by_cases dot : next.ahead = .dot
      · have apart : ¬detour.AtFork next := apart_of_ahead (by rw [dot]; decide)
        have two := first.twin.two_of_inner (by rw [dot]; decide)
        have looks := first.twin.peek (by decide) (by decide) two
        have same := first.twin.glance apart (by decide) two
        have dot' : opposite.ahead = .dot := first.twin.ahead.trans dot
        have atDot := ahead_peek (show 1 ≤ 1 by decide) (by decide) next
        have stands := (glimpse (show 1 ≤ 1 by decide) (by decide) next).2
        by_cases named : (next.upcoming.get 1).1 = .properIdentifier
        · rw [laterSegments_of_dotted dot named,
            laterSegments_of_dotted dot' (same.trans named)]
          have atDot : (next.peek 1).2.ahead = .dot := (congrArg Seen.token atDot).trans dot
          have properNext : (next.peek 1).2.consume.ahead = .properIdentifier := by
            rw [ahead_consume_eq, stands]
            exact named
          have looked : Leads (fun _ => True) next (next.peek 1).2 :=
            Leads.peek (by decide) (by decide) next
          have passes := remaining_consume_lt (isAtEnd_of_ahead (by decide) atDot)
          have fewer' := looked.remaining_le
          have second := looks.twin.consume (by rw [atDot]; decide)
            (apart_of_ahead (by rw [atDot]; decide))
          obtain ⟨later, names⟩ := induction _ (by omega) second.twin properNext rfl
          exact ⟨first.trans (looks.trans (second.trans later)), heads _ _ names⟩
        · rw [laterSegments_of_stop dot named,
            laterSegments_of_stop dot' (by rwa [same])]
          exact ⟨first.trans looks, heads [] [] rfl⟩
      · rw [laterSegments_of_other dot, laterSegments_of_other (by rwa [first.twin.ahead])]
        exact ⟨first, heads [] [] rfl⟩

end Modules

section Skipping

variable {tokens : List Token} {parser : Parser}

theorem skipToAny_unroll (tokens : List Token) (depth : Nat) (parser : Parser) :
    parser.skipToAny tokens depth =
      if parser.isAtEnd then parser
      else if depth = 0 ∧ tokens.contains parser.ahead then parser
      else parser.consume.skipToAny tokens (braceDepthAfter depth parser.ahead) := by
  rw [Parser.skipToAny]
  split <;> rfl

/-- Tokens that stop no skipping and are no braces are passed over. -/
theorem skipToAny_passing {token : Token} (ahead : parser.ahead = token)
    (inner : token ≠ .endOfInput) (stays : ∀ depth, braceDepthAfter depth token = depth)
    (other : tokens.contains token = false) (depth : Nat) :
    parser.skipToAny tokens depth = parser.consume.skipToAny tokens depth := by
  have inside : parser.isAtEnd = false := isAtEnd_of_ahead inner ahead
  rw [Parser.skipToAny, dif_neg (by simp [inside]), if_neg (by rw [ahead, other]; simp), ahead, stays]

theorem climb_skips {file : FileId} {count : Nat} {last : Seen} {rest : List Seen}
    (climbs : Climbs file count parser.sight (last :: rest))
    (proper : tokens.contains .properIdentifier = false) (dot : tokens.contains .dot = false)
    (depth : Nat) :
    ∃ after : Parser, parser.skipToAny tokens depth = after.skipToAny tokens depth ∧
      after.sight = last :: rest ∧
      after.buffered.length = parser.buffered.length - 2 * count ∧
      after.remaining + 2 * count = parser.remaining ∧ Carries parser after := by
  generalize whole : parser.sight = sight at climbs
  generalize top : last :: rest = tops at climbs
  induction climbs generalizing parser with
  | top =>
    subst top
    exact ⟨parser, rfl, whole, rfl, rfl, .refl parser⟩
  | @step count segment point next later rest isProper place isDot placeDot qualified close closeNext
      touches touchesNext higher induction =>
      have closeDot : point.IsClose := ⟨close, by rw [isDot]; decide⟩
      obtain ⟨atDot, fewer⟩ := consume_close whole (by rw [isProper]; decide) closeDot
      obtain ⟨atNext, fewer'⟩ := consume_close atDot closeDot.2
        ⟨closeNext, Detour.inner_of_qualified qualified⟩
      obtain ⟨after, skips, sight, held, remains, carries⟩ := induction atNext top
      refine ⟨after, ?_, sight, ?_, by omega,
        (Carries.consume parser).trans ((Carries.consume _).trans carries)⟩
      · rw [skipToAny_passing ((ahead_of_sight whole).1.trans isProper) (by decide) (fun _ => rfl)
          proper, skipToAny_passing ((ahead_of_sight atDot).1.trans isDot) (by decide) (fun _ => rfl)
          dot, skips]
      · rw [held, Course.Pairs.length_buffered_consume, Course.Pairs.length_buffered_consume]
        omega

variable {detour : Detour} {left right : Parser}

/-- By induction on what remains: both runs skip to the same token. -/
theorem skipToAny_steps (twin : detour.Twin left right)
    (proper : tokens.contains .properIdentifier = false) (dot : tokens.contains .dot = false)
    (depth : Nat) :
    detour.Steps left right (left.skipToAny tokens depth) (right.skipToAny tokens depth) := by
  induction bound : left.remaining using Nat.strong_induction_on generalizing left right depth with
  | _ bound induction =>
    subst bound
    by_cases forked : detour.AtFork left
    · obtain ⟨last, lasts, other, others, below, above, symbol, later⟩ := exists_fork twin forked
      obtain ⟨next, skips, sight, held, remains, carries⟩ := climb_skips below proper dot depth
      obtain ⟨opposite, skips', sight', held', remains', carries'⟩ :=
        climb_skips above proper dot depth
      have positive := detour.positive
      have short := twin.short
      have buffered := twin.buffered
      have met : detour.Twin next opposite :=
        { sees := by rw [sight, sight']; exact later
          buffered := by omega
          short := by omega
          depth := carries'.depth.trans (twin.depth.trans carries.depth.symm)
          steady := carries.steady _ twin.steady
          calm := carries'.calm _ twin.calm }
      rw [skips, skips']
      exact Detour.Steps.trans ⟨met, by omega⟩ (induction _ (by omega) met depth rfl)
    · rw [skipToAny_unroll, skipToAny_unroll tokens depth right, twin.ahead, twin.isAtEnd]
      split
      · exact .refl twin
      · rename_i inside
        split
        · exact .refl twin
        · have inner : left.isAtEnd = false := by simpa using inside
          have fewer := remaining_consume_lt inner
          have first := twin.consume (by simpa [Parser.isAtEnd] using inner) forked
          exact first.trans (induction _ fewer first.twin _ rfl)

end Skipping

end Haskell.Grammar

end Offside
