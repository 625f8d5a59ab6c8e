import Offside.Proofs.Lockstep.Modules
import Offside.Proofs.Parser.Sight

/-!
Two parsers over different texts that have the same tokens in sight for a stretch, the second of them
further down. The stretch ends with the end of both texts, or at a seam: there the first parser finds
the closing brace of its text, and the second a separator and the tokens of a further text. Up to the
seam whatever the first consumes the second consumes too, and with nothing reported by the first
nothing is reported by the second.
-/

namespace Offside

set_option autoImplicit false

open Offside.Lexical

namespace Parser

/-- Where nothing is to be reported, nothing is reported by pulling a token. -/
theorem diagnostics_pullFrom_silent {stream : TokenStream}
    (silent : ∀ item ∈ stream.items, item.reports = []) (context : Context) :
    (pullFrom stream context).2.2.diagnostics = context.diagnostics := by
  have comments : reportsOf stream.comments = [] := by
    rw [reportsOf, List.flatMap_eq_nil_iff]
    exact fun item member => silent item ((List.takeWhile_sublist _).subset member)
  have next : stream.afterComments.next.1.reports = [] := by
    have later : ∀ item ∈ stream.afterComments.items, item.reports = [] := by
      rw [stream.items_afterComments]
      exact fun item member => silent item ((List.dropWhile_sublist _).subset member)
    unfold TokenStream.next
    cases found : stream.afterComments.items with
    | nil => rfl
    | cons item rest =>
      rw [found, List.forall_mem_cons] at later
      exact later.1
  rw [diagnostics_pullFrom, comments, next]
  simp

def nearest (parser : Parser) : Seen := ⟨0, parser.ahead, parser.aheadSpan⟩

theorem exists_sight (parser : Parser) : ∃ later, parser.sight = parser.nearest :: later :=
  ⟨_, rfl⟩

theorem isBrace_of_lookedUp {token : Token} (lookedUp : token.isLookedUp = true) :
    token.isBrace = false := by
  cases token <;> first | rfl | cases lookedUp

theorem ahead_consume {parser : Parser} {first : Seen} {later : List Seen}
    (behind : parser.sight.tail = first :: later) :
    parser.consume.ahead = first.token ∧ parser.consume.sight = first.near :: later := by
  obtain ⟨others, whole⟩ := exists_sight parser
  rw [whole, List.tail_cons] at behind
  subst behind
  obtain ⟨seen, -⟩ := sight_consume whole
  obtain ⟨rest, own⟩ := exists_sight parser.consume
  refine ⟨?_, seen⟩
  rw [seen, List.cons.injEq] at own
  exact (congrArg Seen.token own.1).symm

/-- What is fixed of two runs whose tokens are the same for a stretch. -/
structure Course where
  /-- How many lines further down the second run finds what the first does. -/
  lines : Nat
  /-- The texts that each run will have recorded once all is read. -/
  texts : Position → Option Lexeme
  others : Position → Option Lexeme
  /-- What is known of the spans that the second run passes. -/
  admits : Span → Prop
  /-- How many tokens the first run consumes before the seam, and what the second has in sight behind
  it. Without a seam both runs go on to the end of input. -/
  seam : Option (Nat × List Seen)

namespace Course

variable {course : Course}

structure Matches (course : Course) (first second : Seen) : Prop where
  comments : first.comments ≤ second.comments
  token : second.token = first.token
  span : second.span = first.span.down course.lines ∨
    first.token.isBrace = true ∧ first.span.isPoint = true ∧ second.span.isPoint = true
  texts : first.token.isLookedUp = true →
    course.others second.span.start = course.texts first.span.start
  admitted : second.span.isPoint = false → course.admits second.span

theorem Matches.near {first second : Seen} (matched : course.Matches first second) :
    course.Matches first.near second.near :=
  { matched with comments := Nat.le_refl 0 }

inductive Meets (course : Course) : List Seen → List Seen → Prop
  | atEnd {first second : Seen} (none : course.seam = none) (ended : first.token = .endOfInput)
      (matched : course.Matches first second) : Meets course [first] [second]
  | atSeam {count : Nat} {first second : Seen} {rest beyond : List Seen}
      (seam : course.seam = some (count, beyond)) (comments : first.comments ≤ second.comments)
      (closes : first.token = .closeBrace) (separates : second.token = .semicolon)
      (point : second.span.isPoint = true) : Meets course (first :: rest) (second :: beyond)

/-- What the two runs have in sight some tokens before the stretch ends. -/
inductive Goes (course : Course) : Nat → List Seen → List Seen → Prop
  | meets {firsts seconds : List Seen} (meets : course.Meets firsts seconds) :
      Goes course 0 firsts seconds
  | further {count : Nat} {first second : Seen} {firsts seconds : List Seen}
      (inner : first.token ≠ .endOfInput) (matched : course.Matches first second)
      (later : Goes course count firsts seconds) :
      Goes course (count + 1) (first :: firsts) (second :: seconds)

structure Alike (course : Course) (first second : Seen) : Prop where
  comments : first.comments ≤ second.comments
  inner : isInner second.token = isInner first.token
  token : second.token = first.token ∨ first.token = .closeBrace ∧ second.token = .semicolon
  span : first.token.isBrace = false → second.span = first.span.down course.lines

theorem Matches.alike {first second : Seen} (matched : course.Matches first second) :
    course.Alike first second where
  comments := matched.comments
  inner := by rw [matched.token]
  token := Or.inl matched.token
  span := by
    intro solid
    rcases matched.span with moved | ⟨brace, -, -⟩
    · exact moved
    · rw [solid] at brace
      cases brace

/-- Up to the end of the stretch tokens stand in the same places, and looking at one of them makes no
difference. -/
theorem Goes.split {count place : Nat} {firsts seconds : List Seen}
    (goes : course.Goes count firsts seconds) (within : place ≤ count) :
    ∃ front first before front' second after,
      firsts = front ++ first :: before ∧ seconds = front' ++ second :: after ∧
        front.length = place ∧ front'.length = place ∧ course.Alike first second ∧
        course.Goes count (front ++ first.near :: before) (front' ++ second.near :: after) := by
  induction goes generalizing place with
  | meets meets =>
    rw [Nat.le_zero.1 within]
    cases meets with
    | atEnd none ended matched =>
      exact ⟨[], _, [], [], _, [], rfl, rfl, rfl, rfl, matched.alike,
        .meets (.atEnd none ended matched.near)⟩
    | atSeam seam comments closes separates point =>
      refine ⟨[], _, _, [], _, _, rfl, rfl, rfl, rfl, ⟨comments, ?_, ?_, ?_⟩,
        .meets (.atSeam seam (Nat.le_refl 0) closes separates point)⟩
      · rw [closes, separates]
        rfl
      · exact Or.inr ⟨closes, separates⟩
      · rw [closes]
        intro solid
        cases solid
  | @further count first second firsts seconds inner matched later induction =>
    cases place with
    | zero =>
      exact ⟨[], first, firsts, [], second, seconds, rfl, rfl, rfl, rfl, matched.alike,
        .further inner matched.near later⟩
    | succ place =>
      obtain ⟨front, seen, before, front', other, after, rfl, rfl, length, length', alike,
        goes⟩ := induction (Nat.le_of_succ_le_succ within)
      exact ⟨first :: front, seen, before, second :: front', other, after, rfl, rfl,
        congrArg (· + 1) length, congrArg (· + 1) length', alike,
        .further inner matched goes⟩

structure Pairs (course : Course) (left right : Parser) : Prop where
  /-- Neither run has peeked past the end of the stretch. -/
  stretch : ∃ count, course.Goes count left.sight right.sight ∧ left.buffered.length ≤ count ∧
    ∀ seam ∈ course.seam, left.consumed + count = seam.1
  buffered : right.buffered.length = left.buffered.length
  /-- What was consumed last by the second run either corresponds or stands above the text. -/
  previous : right.previous = left.previous.down course.lines ∨
    left.previous.stop = .origin ∧ right.previous.stop.line < course.lines
  admitted : course.admits right.previous
  depth : right.depth = left.depth
  clean : right.Clean
  silent : ∀ item ∈ right.input.items, item.reports = []
  steady : left.Steady course.texts
  other : right.Steady course.others

def Before (course : Course) (parser : Parser) : Prop :=
  ∀ seam ∈ course.seam, parser.consumed < seam.1

namespace Pairs

variable {left right : Parser} (pairs : course.Pairs left right)

include pairs

theorem ahead : course.Alike left.nearest right.nearest := by
  obtain ⟨count, goes, -, -⟩ := pairs.stretch
  obtain ⟨later, seen⟩ := exists_sight left
  obtain ⟨later', seen'⟩ := exists_sight right
  rw [seen, seen'] at goes
  obtain ⟨front, first, before, front', second, after, split, split', length, length', alike, -⟩ :=
    goes.split (Nat.zero_le count)
  rw [List.eq_nil_of_length_eq_zero length, List.nil_append, List.cons.injEq] at split
  rw [List.eq_nil_of_length_eq_zero length', List.nil_append, List.cons.injEq] at split'
  rw [split.1, split'.1]
  exact alike

/-- Before the seam, or where there is none, the two runs see matching tokens. -/
theorem matched (before : course.Before left) : course.Matches left.nearest right.nearest := by
  obtain ⟨count, goes, -, counted⟩ := pairs.stretch
  obtain ⟨later, seen⟩ := exists_sight left
  obtain ⟨later', seen'⟩ := exists_sight right
  rw [seen, seen'] at goes
  cases goes with
  | meets meets =>
    cases meets with
    | atEnd none ended matched => exact matched
    | atSeam seam comments closes separates point =>
      have early := before _ seam
      have late := counted _ seam
      omega
  | further inner matched later => exact matched

/-- At the seam the first run sees the closing brace and the second a separator. -/
theorem atSeam {seam : Nat × List Seen} (found : course.seam = some seam)
    (reached : left.consumed = seam.1) :
    left.ahead = .closeBrace ∧ right.ahead = .semicolon ∧ right.aheadSpan.isPoint = true ∧
      left.buffered = [] ∧ right.sight.tail = seam.2 := by
  obtain ⟨count, goes, room, counted⟩ := pairs.stretch
  have none : count = 0 := by
    have late := counted _ found
    omega
  subst none
  obtain ⟨later, seen⟩ := exists_sight left
  obtain ⟨later', seen'⟩ := exists_sight right
  rw [seen, seen'] at goes
  cases goes with
  | meets meets =>
    cases meets with
    | atEnd absent ended matched =>
      rw [absent] at found
      cases found
    | atSeam seam' comments closes separates point =>
      rw [found] at seam'
      cases seam'
      exact ⟨closes, separates, point, List.eq_nil_of_length_eq_zero (Nat.le_zero.1 room),
        congrArg List.tail seen'⟩

/-- There is more than one token before the end of the stretch where neither a brace nor the end of
input is next. -/
theorem further (inner : left.ahead ≠ .endOfInput) (before : course.Before left) :
    ∃ count, course.Goes (count + 1) left.sight right.sight ∧
      left.buffered.length ≤ count + 1 ∧ ∀ seam ∈ course.seam, left.consumed + (count + 1) = seam.1 := by
  obtain ⟨count, goes, room, counted⟩ := pairs.stretch
  cases count with
  | succ count => exact ⟨count, goes, room, counted⟩
  | zero =>
    obtain ⟨later, seen⟩ := exists_sight left
    obtain ⟨later', seen'⟩ := exists_sight right
    rw [seen, seen'] at goes
    cases goes with
    | meets meets =>
      cases meets with
      | atEnd none ended matched => exact absurd ended inner
      | atSeam seam comments closes separates point =>
        have early := before _ seam
        have late := counted _ seam
        omega

omit pairs in
theorem clean_consume (clean : right.Clean)
    (silent : ∀ item ∈ right.input.items, item.reports = []) :
    right.consume.Clean ∧ ∀ item ∈ right.consume.input.items, item.reports = [] := by
  have kept := consume_keeps right
  have unreported := kept.2.2.2.trans clean.unreported
  have unharmed := kept.2.2.1.trans clean.unharmed
  have suffix := (pullFrom_pulled right.input right.context).suffix
  have quiet := diagnostics_pullFrom_silent silent right.context
  unfold Parser.consume at unreported unharmed ⊢
  cases found : right.buffered with
  | nil =>
    simp only [found] at unreported unharmed ⊢
    exact ⟨⟨quiet.trans clean.diagnostics, unreported, unharmed⟩,
      fun item member => silent item (suffix.subset member)⟩
  | cons next later =>
    simp only [found] at unreported unharmed ⊢
    exact ⟨⟨clean.diagnostics, unreported, unharmed⟩, silent⟩

omit pairs in
theorem previous_consume (parser : Parser) :
    parser.consume.previous =
      if parser.aheadSpan.isPoint then parser.previous else parser.aheadSpan := by
  unfold Parser.consume
  cases parser.buffered with
  | nil => rfl
  | cons next later => rfl

omit pairs in
theorem length_buffered_consume (parser : Parser) :
    parser.consume.buffered.length = parser.buffered.length - 1 := by
  unfold Parser.consume
  cases found : parser.buffered with
  | nil =>
    simp only [pull]
    rfl
  | cons next later => rfl

theorem consume (inner : left.ahead ≠ .endOfInput) (before : course.Before left) :
    course.Pairs left.consume right.consume ∧
      right.consume.remaining + left.remaining ≤ right.remaining + left.consume.remaining := by
  obtain ⟨count, goes, room, counted⟩ := pairs.further inner before
  have matched := pairs.matched before
  have clean := clean_consume pairs.clean pairs.silent
  have kept := consume_keeps left
  have kept' := consume_keeps right
  obtain ⟨behind, whole⟩ := exists_sight left
  obtain ⟨behind', whole'⟩ := exists_sight right
  rw [whole, whole'] at goes
  cases goes with
  | further inner' matched' later =>
    obtain ⟨front, first, firsts, front', second, seconds, rfl, rfl, length, length', alike,
      goes⟩ := later.split (Nat.zero_le count)
    rw [List.eq_nil_of_length_eq_zero length, List.nil_append] at whole goes
    rw [List.eq_nil_of_length_eq_zero length', List.nil_append] at whole' goes
    obtain ⟨seen, remains⟩ := sight_consume whole
    obtain ⟨seen', remains'⟩ := sight_consume whole'
    have sameBuffer : right.buffered = [] ↔ left.buffered = [] := by
      rw [← List.length_eq_zero_iff, ← List.length_eq_zero_iff, pairs.buffered]
    have comments := alike.comments
    constructor
    · exact
        { stretch := by
            refine ⟨count, by rwa [seen, seen'], ?_, ?_⟩
            · rw [length_buffered_consume]
              omega
            · intro seam member
              have late := counted seam member
              rw [kept.1]
              omega
          buffered := by
            rw [length_buffered_consume, length_buffered_consume, pairs.buffered]
          previous := by
            rw [previous_consume, previous_consume]
            rcases matched.span with moved | ⟨-, point, point'⟩
            · change right.aheadSpan = left.aheadSpan.down course.lines at moved
              rw [moved, Span.isPoint_down]
              split
              · exact pairs.previous
              · exact Or.inl rfl
            · rw [if_pos (show left.aheadSpan.isPoint = true from point),
                if_pos (show right.aheadSpan.isPoint = true from point')]
              exact pairs.previous
          admitted := by
            rw [previous_consume]
            split
            · exact pairs.admitted
            · rename_i wide
              exact matched.admitted (Bool.eq_false_iff.2 wide)
          depth := kept'.2.1.trans (pairs.depth.trans kept.2.1.symm)
          clean := clean.1
          silent := clean.2
          steady := pairs.steady.consume
          other := pairs.other.consume }
    · rw [alike.inner] at remains'
      have heads : isInner right.nearest.token = isInner left.nearest.token :=
        congrArg isInner matched.token
      simp only [sameBuffer, heads] at remains remains'
      split at remains <;> rename_i empty <;> simp only [empty, if_true, if_false] at remains' <;>
        omega

theorem fill {count : Nat} (goes : course.Goes count left.sight right.sight)
    (room : left.buffered.length < count)
    (counted : ∀ seam ∈ course.seam, left.consumed + count = seam.1) :
    course.Pairs (left.fill 1) (right.fill 1) ∧
      course.Goes count (left.fill 1).sight (right.fill 1).sight ∧
      (right.fill 1).remaining + left.remaining ≤ right.remaining + (left.fill 1).remaining := by
  obtain ⟨front, first, firsts, front', second, seconds, split, split', length, length', alike,
    goes⟩ := goes.split (Nat.succ_le_of_lt room)
  obtain ⟨seen, remains⟩ := sight_fill split length
  obtain ⟨seen', remains'⟩ := sight_fill split' (length'.trans (by rw [pairs.buffered]))
  rw [← seen, ← seen'] at goes
  have suffix := (pullFrom_pulled right.input right.context).suffix
  refine ⟨?_, goes, ?_⟩
  · exact
      { stretch := ⟨count, goes, by rw [length_buffered_fill]; exact room, counted⟩
        buffered := by rw [length_buffered_fill, length_buffered_fill, pairs.buffered]
        previous := pairs.previous
        admitted := pairs.admitted
        depth := pairs.depth
        clean :=
          ⟨(diagnostics_pullFrom_silent pairs.silent right.context).trans pairs.clean.diagnostics,
            pairs.clean.unreported, pairs.clean.unharmed⟩
        silent := fun item member => pairs.silent item (suffix.subset member)
        steady := pairs.steady.fill
        other := pairs.other.fill }
  · have comments := alike.comments
    rw [alike.inner] at remains'
    omega

theorem fill_many {count more : Nat} (goes : course.Goes count left.sight right.sight)
    (room : left.buffered.length + more ≤ count)
    (counted : ∀ seam ∈ course.seam, left.consumed + count = seam.1) :
    course.Pairs (left.fill more) (right.fill more) ∧
      course.Goes count (left.fill more).sight (right.fill more).sight ∧
      (right.fill more).remaining + left.remaining ≤ right.remaining + (left.fill more).remaining := by
  induction more generalizing left right with
  | zero => exact ⟨pairs, goes, Nat.le_refl _⟩
  | succ more induction =>
    obtain ⟨filled, goesOn, one⟩ := pairs.fill goes (by omega) counted
    obtain ⟨final, last, others⟩ := induction filled goesOn
      (by rw [length_buffered_fill]; omega) counted
    exact ⟨final, last, by
      change (Parser.fill more (right.fill 1)).remaining + _ ≤
        _ + (Parser.fill more (left.fill 1)).remaining
      omega⟩

omit pairs in
/-- Where the next token neither ends the text nor a block, another one comes before the end of the
stretch. -/
theorem two_of_next {count : Nat} (goes : course.Goes (count + 1) left.sight right.sight)
    (notEnd : left.consume.ahead ≠ .endOfInput) (notBrace : left.consume.ahead ≠ .closeBrace) :
    2 ≤ count + 1 := by
  obtain ⟨behind, whole⟩ := exists_sight left
  obtain ⟨behind', whole'⟩ := exists_sight right
  rw [whole, whole'] at goes
  cases goes with
  | further inner matched later =>
    cases later with
    | further inner matched later => exact Nat.succ_le_succ (Nat.succ_le_succ (Nat.zero_le _))
    | meets meets =>
      have tail := congrArg List.tail whole
      cases meets with
      | atEnd none ended matched => exact absurd ((ahead_consume tail).1.trans ended) notEnd
      | atSeam seam comments closes separates point =>
        exact absurd ((ahead_consume tail).1.trans closes) notBrace

omit pairs in
theorem getD_buffered {parser : Parser} {front : List Seen} {seen : Seen} {later : List Seen}
    {place : Nat} (split : parser.sight = front ++ seen :: later) (length : front.length = place + 1)
    (room : place < parser.buffered.length) (absent : Token × Span) :
    parser.buffered.getD place absent = (seen.token, seen.span) := by
  have found : parser.sight[place + 1]? = some seen := by
    rw [split, List.getElem?_append_right (Nat.le_of_eq length), length, Nat.sub_self]
    rfl
  rw [sight, List.getElem?_cons_succ, List.getElem?_append_left (by simpa using room),
    List.getElem?_map, Option.map_eq_some_iff] at found
  obtain ⟨own, member, rfl⟩ := found
  rw [List.getD_eq_getElem?_getD, member]
  rfl

theorem peek {count distance : Nat} (goes : course.Goes count left.sight right.sight)
    (room : left.buffered.length ≤ count)
    (counted : ∀ seam ∈ course.seam, left.consumed + count = seam.1) (near : 1 ≤ distance)
    (reachable : distance ≤ reach) (within : distance ≤ count) :
    (∃ first second, (left.peek distance).1 = (first.token, first.span) ∧
      (right.peek distance).1 = (second.token, second.span) ∧ course.Alike first second) ∧
      course.Pairs (left.peek distance).2 (right.peek distance).2 ∧
      (right.peek distance).2.remaining + left.remaining ≤
        right.remaining + (left.peek distance).2.remaining := by
  rw [peek_apply near reachable, peek_apply near reachable, pairs.buffered]
  obtain ⟨filled, goesOn, progress⟩ :=
    @fill_many _ _ _ pairs count (distance - left.buffered.length) goes (by omega) counted
  refine ⟨?_, filled, progress⟩
  obtain ⟨front, first, firsts, front', second, seconds, split, split', length, length', alike, -⟩ :=
    goesOn.split within
  have enough := length_buffered_fill (distance - left.buffered.length) left
  have enough' := length_buffered_fill (distance - left.buffered.length) right
  rw [pairs.buffered] at enough'
  refine ⟨first, second, getD_buffered split ?_ ?_ _, getD_buffered split' ?_ ?_ _, alike⟩
  · omega
  · omega
  · omega
  · omega

end Pairs

def pairing (course : Course) : Pairing where
  move := Span.down course.lines
  pairs _ left right := course.Pairs left right
  good parser := parser.Clean ∧ ∀ seam ∈ course.seam, parser.consumed ≤ seam.1
  seam parser := ∃ seam ∈ course.seam, parser.consumed = seam.1

/-- A run that goes on past a state has not come to the seam there. -/
theorem before_of_consume {parser : Parser} (good : course.pairing.good parser.consume) :
    course.Before parser := by
  intro seam member
  have later := good.2 seam member
  rw [(consume_keeps parser).1] at later
  exact later

/-- Runs may be told apart only at the seam, where the first has come to the closing brace. -/
theorem before_of_solid {left right : Parser} (pairs : course.Pairs left right)
    (solid : left.ahead.isBrace = false) : course.Before left := by
  intro seam member
  obtain ⟨count, -, -, counted⟩ := pairs.stretch
  have late := counted seam member
  have other : left.consumed ≠ seam.1 := by
    intro reached
    rw [(pairs.atSeam member reached).1] at solid
    cases solid
  omega

theorem before_of_notSeam {left right : Parser} (pairs : course.Pairs left right)
    (notSeam : ¬course.pairing.seam left) : course.Before left := by
  intro seam member
  obtain ⟨count, -, -, counted⟩ := pairs.stretch
  have late := counted seam member
  have other : left.consumed ≠ seam.1 := fun reached => notSeam ⟨seam, member, reached⟩
  omega

theorem spanFrom_down {left right : Parser} (pairs : course.Pairs left right) (start : Span) :
    right.spanFrom (start.down course.lines) = (left.spanFrom start).down course.lines := by
  unfold spanFrom
  rcases pairs.previous with moved | ⟨atOrigin, above⟩
  · rw [moved]
    simp only [Span.down, Position.down_le_down]
    split
    · rfl
    · rfl
  · have unpassed : ¬(right.previous.file = (start.down course.lines).file ∧
        (start.down course.lines).stop ≤ right.previous.stop) := by
      rintro ⟨-, before⟩
      have higher := Position.line_le_of_le before
      change start.stop.line + course.lines ≤ _ at higher
      omega
    rw [if_neg unpassed]
    split
    · rename_i passed
      have stop : start.stop = .origin := by
        have before := passed.2
        rw [atOrigin] at before
        refine Position.le_antisymm before (Position.le_def.2 ?_)
        simp only [Position.origin]
        omega
      have same : start.through left.previous = start := by
        rw [Span.through, atOrigin, ← stop]
      rw [same]
    · rfl

theorem touches_down (lines : Nat) (first last : Span) :
    (first.down lines).stop = (last.down lines).start ↔ first.stop = last.start :=
  Position.down_inj

theorem consumed_le_of_leads {before after : Parser}
    (leads : Leads (fun _ => True) before after) : before.consumed ≤ after.consumed := by
  obtain ⟨passed, run⟩ := leads
  rw [run.effect.consumed]
  exact Nat.le_add_right _ _

instance : course.pairing.Lawful where
  file := fun _ => rfl
  through := fun _ _ => rfl
  touches := touches_down course.lines
  ahead := fun pairs notSeam => (pairs.matched (before_of_notSeam pairs notSeam)).token
  aheadSpan := fun pairs solid => pairs.ahead.span solid
  atSeam := by
    rintro brackets left right pairs ⟨seam, member, reached⟩
    obtain ⟨closes, separates, -⟩ := pairs.atSeam member reached
    exact ⟨closes, separates⟩
  stays := by
    rintro parser good ⟨seam, member, reached⟩
    have early := before_of_consume good seam member
    omega
  good_of_consume := fun good =>
    ⟨clean_of_consume good.1, fun seam member => Nat.le_of_lt (before_of_consume good seam member)⟩
  seam_of_leads := by
    rintro parser next leads good ⟨seam, member, reached⟩
    have later := consumed_le_of_leads leads
    have within := good.2 seam member
    exact ⟨seam, member, by omega⟩
  spanFrom := fun pairs start => spanFrom_down pairs start
  lexeme := by
    intro brackets left right pairs lookedUp
    have matched := pairs.matched (before_of_solid pairs (isBrace_of_lookedUp lookedUp))
    have same : right.ahead = left.ahead := matched.token
    rw [pairs.steady.lexemeAt lookedUp, pairs.other.lexemeAt (by rw [same]; exact lookedUp)]
    exact matched.texts lookedUp
  depth := fun pairs => pairs.depth
  atDepth := fun pairs depth =>
    { pairs with
      depth := rfl
      clean := { pairs.clean with }
      steady := { pairs.steady with }
      other := { pairs.other with } }
  good_atDepth := fun parser depth =>
    ⟨fun good => ⟨{ good.1 with }, good.2⟩, fun good => ⟨{ good.1 with }, good.2⟩⟩
  seam_atDepth := fun _ _ => Iff.rfl
  good_of_leads := by
    intro parser next leads good
    have later := consumed_le_of_leads leads
    exact ⟨leads.clean good.1, fun seam member => Nat.le_trans later (good.2 seam member)⟩
  mishap := fun mishap parser good => absurd good.1 (mishap.spoils parser)
  consume := by
    intro before after left right pairs inner _ good
    obtain ⟨consumed, progress⟩ := pairs.consume (by simpa [isAtEnd] using inner)
      (before_of_consume good)
    exact ⟨consumed, progress⟩
  peek := by
    intro brackets left right distance pairs inner solid reachable good
    have atToken : left.ahead ≠ .endOfInput := by simpa [isAtEnd] using inner
    obtain ⟨count, goes, room, counted⟩ := pairs.further atToken (before_of_solid pairs solid)
    have near : 1 ≤ distance ∧ distance ≤ reach := by
      rcases reachable with rfl | ⟨rfl, -⟩ <;> decide
    have within : distance ≤ count + 1 := by
      rcases reachable with rfl | ⟨rfl, notEnd, notBrace⟩
      · exact Nat.succ_le_succ (Nat.zero_le count)
      · exact Pairs.two_of_next goes notEnd notBrace
    obtain ⟨⟨first, second, seen, seen', alike⟩, peeked, progress⟩ :=
      pairs.peek goes room counted near.1 near.2 within
    rw [seen, seen']
    exact ⟨⟨alike.token, alike.span⟩, peeked, progress⟩

end Course

end Parser

end Offside
