import Offside.Proofs.Deepening.Trees
import Offside.Proofs.Lockstep.Courses
import Offside.Proofs.Naming.Terms

/-!
Two parsers over texts of which the second has one qualifier written with more segments. At every
place but that one both have the same tokens in sight, touching one another alike. At the fork the
first run has one segment and its dot before it, and the second climbs over several: what stands two
tokens ahead is there no longer the same, and nothing else in sight tells the runs apart.
-/

namespace Offside

set_option autoImplicit false

open Offside.Lexical

theorem Seen.near_of_none {seen : Seen} (none : seen.comments = 0) : seen.near = seen := by
  cases seen
  cases none
  rfl

theorem seenOf_shown (comments : Nat) (tokens : List (Token × Span)) :
    (seenOf comments tokens).map (fun seen => (seen.token, seen.span)) =
      tokens.filter fun found => found.1 ≠ .comment := by
  induction tokens generalizing comments with
  | nil => rfl
  | cons found later induction =>
    rw [seenOf]
    split
    · rename_i comment
      rw [induction, List.filter_cons_of_neg (by simpa using comment)]
    · rename_i other
      rw [List.map_cons, induction, List.filter_cons_of_pos (by simpa using other)]

namespace Parser

theorem upcoming_of_sight (parser : Parser) (place : Nat) {seen : Seen}
    (found : parser.sight[place]? = some seen) :
    parser.upcoming.get place = (seen.token, seen.span) := by
  have shown : parser.sight.map (fun seen => (seen.token, seen.span)) =
      (parser.ahead, parser.aheadSpan) :: parser.buffered ++ parser.input.visible := by
    have pulled : (seenIn parser.input).map (fun seen => (seen.token, seen.span)) =
        parser.input.visible := by
      rw [seenIn, seenOf_shown, TokenStream.visible, List.filter_map]
      apply congrArg (List.map Lexed.located)
      apply List.filter_congr
      exact fun item _ => decide_not
    rw [sight, List.map_cons, List.map_append, List.map_map, pulled]
    exact congrArg (fun held => (parser.ahead, parser.aheadSpan) :: (held ++ _)) (List.map_id _)
  have known : ((parser.ahead, parser.aheadSpan) :: parser.buffered ++ parser.input.visible)[place]? =
      some (seen.token, seen.span) := by
    rw [← shown, List.getElem?_map, found]
    rfl
  obtain ⟨inside, same⟩ := List.getElem?_eq_some_iff.1 known
  rw [upcoming, TokenStream.shows, ← Stream'.append_append_stream, Stream'.get_append_left _ _ _ inside,
    same]

/-- A state in which nothing went wrong and nothing is to be reported, with the texts that will be
recorded once all is read. -/
structure Calm (texts : Position → Option Lexeme) (parser : Parser) : Prop where
  clean : parser.Clean
  silent : ∀ item ∈ parser.input.items, item.reports = []
  steady : parser.Steady texts

namespace Calm

variable {texts : Position → Option Lexeme} {parser : Parser}

theorem consume (calm : parser.Calm texts) : parser.consume.Calm texts :=
  have kept := Course.Pairs.clean_consume calm.clean calm.silent
  ⟨kept.1, kept.2, calm.steady.consume⟩

theorem fill_one (calm : parser.Calm texts) : (parser.fill 1).Calm texts where
  clean :=
    ⟨(diagnostics_pullFrom_silent calm.silent parser.context).trans calm.clean.diagnostics,
      calm.clean.unreported, calm.clean.unharmed⟩
  silent := fun item member =>
    calm.silent item ((pullFrom_pulled parser.input parser.context).suffix.subset member)
  steady := calm.steady.fill

theorem atDepth (calm : parser.Calm texts) (depth : Nat) :
    ({ parser with depth } : Parser).Calm texts :=
  ⟨{ calm.clean with }, calm.silent, { calm.steady with }⟩

end Calm

structure Detour where
  /-- The place of the qualifier in the first text. -/
  fork : Span
  /-- How many segments stand for it in the second. -/
  depth : Nat
  several : 1 < depth
  /-- The texts that each run will have recorded once all is read. -/
  texts : Position → Option Lexeme
  others : Position → Option Lexeme

theorem Detour.positive (detour : Detour) : 0 < detour.depth := Nat.lt_of_succ_lt detour.several

/-- Segments of a qualifier with a dot behind each, all of them touching, up to what they qualify. -/
inductive Climbs (file : FileId) : Nat → List Seen → List Seen → Prop
  | top {rest : List Seen} : Climbs file 0 rest rest
  | step {count : Nat} {segment dot next : Seen} {later rest : List Seen}
      (proper : segment.token = .properIdentifier) (place : segment.span.file = file)
      (isDot : dot.token = .dot) (placeDot : dot.span.file = file)
      (qualified : Haskell.Grammar.isQualified next.token = true)
      (close : dot.comments = 0) (closeNext : next.comments = 0)
      (touches : segment.span.stop = dot.span.start) (touchesNext : dot.span.stop = next.span.start)
      (higher : Climbs file count (next :: later) rest) :
      Climbs file (count + 1) (segment :: dot :: next :: later) rest

/-- Comments before the first segment are no matter. -/
theorem Climbs.near {file : FileId} {count : Nat} {first : Seen} {later rest : List Seen}
    (climbs : Climbs file (count + 1) (first :: later) rest) :
    Climbs file (count + 1) (first.near :: later) rest := by
  cases climbs with
  | step proper place isDot placeDot qualified close closeNext touches touchesNext higher =>
    exact .step proper place isDot placeDot qualified close closeNext touches touchesNext higher

namespace Detour

variable {detour : Detour}

/-- A token of the first run and the one that the second finds in its place. -/
structure Meets (detour : Detour) (first second : Seen) : Prop where
  comments : second.comments = first.comments
  token : second.token = first.token
  file : second.span.file = first.span.file
  texts : first.token.isLookedUp = true →
    detour.others second.span.start = detour.texts first.span.start

theorem Meets.near {first second : Seen} (meets : detour.Meets first second) :
    detour.Meets first.near second.near :=
  { meets with comments := rfl }

def Forked (detour : Detour) (seen : Seen) : Prop :=
  seen.token = .properIdentifier ∧ seen.span = detour.fork

def Apart (detour : Detour) (seen : Seen) : Prop :=
  seen.token = .identifier ∨ seen.token = .properIdentifier → seen.span ≠ detour.fork

theorem Apart.not_forked {seen : Seen} (apart : detour.Apart seen) : ¬detour.Forked seen :=
  fun forked => apart (.inr forked.1) forked.2

inductive Sees (detour : Detour) : List Seen → List Seen → Prop
  | ended {first second : Seen} (ended : first.token = .endOfInput)
      (meets : detour.Meets first second) : Sees detour [first] [second]
  | further {first second next other : Seen} {firsts seconds : List Seen}
      (inner : first.token ≠ .endOfInput) (apart : detour.Apart first)
      (meets : detour.Meets first second)
      (touches : second.span.stop = other.span.start ↔ first.span.stop = next.span.start)
      (later : Sees detour (next :: firsts) (other :: seconds)) :
      Sees detour (first :: next :: firsts) (second :: other :: seconds)
  | fork {first second last other : Seen} {firsts seconds lasts others : List Seen}
      (comments : second.comments = first.comments) (place : first.span = detour.fork)
      (below : Climbs detour.fork.file 1 (first :: firsts) (last :: lasts))
      (above : Climbs detour.fork.file detour.depth (second :: seconds) (other :: others))
      (symbol : last.token.isOperator = true) (later : Sees detour (last :: lasts) (other :: others)) :
      Sees detour (first :: firsts) (second :: seconds)

theorem inner_of_qualified {token : Token} (found : Haskell.Grammar.isQualified token = true) :
    token ≠ .endOfInput :=
  Token.inner_of_plain (Haskell.Grammar.plain_of_qualified found)

theorem isInner_of_ne {token : Token} (inner : token ≠ .endOfInput) : isInner token = true := by
  simpa [isInner] using inner

structure Alike (first second : Seen) : Prop where
  comments : second.comments = first.comments
  inner : isInner second.token = isInner first.token

theorem Meets.alike {first second : Seen} (meets : detour.Meets first second) :
    Alike first second :=
  ⟨meets.comments, by rw [meets.token]⟩

/-- Behind the fork the second run has a segment and a dot in sight, and something that they
qualify. -/
theorem exists_above {second : Seen} {seconds rest : List Seen}
    (above : Climbs detour.fork.file detour.depth (second :: seconds) rest) :
    ∃ dot next later, seconds = dot :: next :: later ∧ second.token = .properIdentifier ∧
      second.span.file = detour.fork.file ∧ dot.token = .dot ∧ dot.comments = 0 ∧
      Haskell.Grammar.isQualified next.token = true ∧ next.comments = 0 := by
  obtain ⟨count, more⟩ := Nat.exists_eq_succ_of_ne_zero (Nat.pos_iff_ne_zero.1 detour.positive)
  rw [more] at above
  cases above with
  | step proper place isDot placeDot qualified close closeNext touches touchesNext higher =>
    exact ⟨_, _, _, rfl, proper, place, isDot, close, qualified, closeNext⟩

namespace Sees

variable {first second : Seen} {firsts seconds : List Seen}

theorem head (sees : detour.Sees (first :: firsts) (second :: seconds)) :
    detour.Meets first second := by
  cases sees with
  | ended ended meets => exact meets
  | further inner apart meets touches later => exact meets
  | fork comments place below above symbol later =>
    obtain ⟨-, -, -, -, proper', file', -⟩ := exists_above above
    cases below with
    | step proper file =>
      refine ⟨comments, proper'.trans proper.symm, file'.trans file.symm, ?_⟩
      rw [proper]
      intro lookedUp
      cases lookedUp

theorem exists_cons (sees : detour.Sees firsts seconds) :
    ∃ first others second later, firsts = first :: others ∧ seconds = second :: later := by
  cases sees with
  | ended => exact ⟨_, _, _, _, rfl, rfl⟩
  | further => exact ⟨_, _, _, _, rfl, rfl⟩
  | fork => exact ⟨_, _, _, _, rfl, rfl⟩

/-- Comments before the first token are no matter once they were dropped. -/
theorem near (sees : detour.Sees (first :: firsts) (second :: seconds)) :
    detour.Sees (first.near :: firsts) (second.near :: seconds) := by
  cases sees with
  | ended ended meets => exact .ended ended meets.near
  | further inner apart meets touches later => exact .further inner apart meets.near touches later
  | fork comments place below above symbol later =>
    obtain ⟨count, more⟩ := Nat.exists_eq_succ_of_ne_zero (Nat.pos_iff_ne_zero.1 detour.positive)
    rw [more] at above
    exact .fork rfl place below.near (more ▸ above.near) symbol later

theorem two_of_inner (sees : detour.Sees (first :: firsts) seconds)
    (inner : first.token ≠ .endOfInput) : 1 < (first :: firsts).length := by
  cases sees with
  | ended ended meets => exact absurd ended inner
  | further => simp
  | fork comments place below above symbol later =>
    cases below with
    | step => simp

/-- Up to two tokens ahead the tokens stand in the same places, and looking at one of them makes no
difference. -/
theorem split {place : Nat} (sees : detour.Sees firsts seconds) (close : place ≤ 2)
    (within : place < firsts.length) :
    ∃ front first before front' second after,
      firsts = front ++ first :: before ∧ seconds = front' ++ second :: after ∧
        front.length = place ∧ front'.length = place ∧ Alike first second ∧
        detour.Sees (front ++ first.near :: before) (front' ++ second.near :: after) := by
  induction sees generalizing place with
  | ended ended meets =>
    obtain rfl : place = 0 := by simpa using within
    exact ⟨[], _, [], [], _, [], rfl, rfl, rfl, rfl, meets.alike, .ended ended meets.near⟩
  | further inner apart meets touches later induction =>
    cases place with
    | zero =>
      exact ⟨[], _, _, [], _, _, rfl, rfl, rfl, rfl, meets.alike,
        .further inner apart meets.near touches later⟩
    | succ place =>
      obtain ⟨front, seen, before, front', other, after, split, split', length, length', alike,
        goes⟩ := @induction place (by omega) (by simpa using within)
      refine ⟨_ :: front, seen, before, _ :: front', other, after, by rw [split]; rfl,
        by rw [split']; rfl, congrArg (· + 1) length, congrArg (· + 1) length', alike, ?_⟩
      -- what the first token touches is the next one, with or without its comments
      cases front with
      | nil =>
        obtain rfl := List.eq_nil_of_length_eq_zero (length'.trans length.symm)
        rw [List.nil_append, List.cons.injEq] at split split'
        rw [split.1, split'.1] at touches
        exact .further inner apart meets touches goes
      | cons own front =>
        obtain ⟨other', front', rfl⟩ := List.exists_cons_of_length_pos
          (show 0 < front'.length by rw [length', ← length]; exact Nat.succ_pos _)
        rw [List.cons_append, List.cons.injEq] at split split'
        rw [split.1, split'.1] at touches
        exact .further inner apart meets touches goes
  | @fork first second last other firsts seconds lasts others comments forked below above symbol
      later _ =>
      have whole : detour.Sees (first :: firsts) (second :: seconds) :=
        .fork comments forked below above symbol later
      obtain ⟨dot', next', later', rfl, proper', -, isDot', close', qualified', closeNext'⟩ :=
        exists_above above
      cases below with
      | @step _ _ dot next rest _ proper file isDot placeDot qualified closeDot closeNext touches touchesNext
          higher =>
          match place, close with
          | 0, _ => exact ⟨[], _, _, [], _, _, rfl, rfl, rfl, rfl, whole.head.alike, whole.near⟩
          | 1, _ =>
            refine ⟨[first], dot, _, [second], dot', _, rfl, rfl, rfl, rfl, ⟨?_, ?_⟩, ?_⟩
            · rw [closeDot, close']
            · rw [isDot, isDot']
            · rw [Seen.near_of_none closeDot, Seen.near_of_none close']
              exact whole
          | 2, _ =>
            refine ⟨[first, dot], next, rest, [second, dot'], next', later', rfl, rfl, rfl, rfl,
              ⟨?_, ?_⟩, ?_⟩
            · rw [closeNext, closeNext']
            · rw [isInner_of_ne (inner_of_qualified qualified),
                isInner_of_ne (inner_of_qualified qualified')]
            · rw [Seen.near_of_none closeNext, Seen.near_of_none closeNext']
              exact whole

/-- Where the fork is not next, the runs see the same up to two tokens ahead. -/
theorem ahead {place : Nat} (sees : detour.Sees (first :: firsts) seconds)
    (apart : ¬detour.Forked first) (close : place ≤ 2) {seen other : Seen}
    (found : (first :: firsts)[place]? = some seen) (found' : seconds[place]? = some other) :
    other.token = seen.token := by
  cases sees with
  | ended ended meets =>
    obtain rfl : place = 0 := by
      have inside := (List.getElem?_eq_some_iff.1 found).1
      simpa using inside
    cases found
    cases found'
    exact meets.token
  | further inner apart meets touches later =>
    match place, close with
    | 0, _ =>
      cases found
      cases found'
      exact meets.token
    | 1, _ =>
      cases found
      cases found'
      exact later.head.token
    | 2, _ =>
      cases later with
      | ended => cases found
      | further inner apart meets touches later =>
        cases found
        cases found'
        exact later.head.token
      | fork comments forked below above symbol later =>
        obtain ⟨dot', next', later', rfl, -, -, isDot', -⟩ := exists_above above
        cases below with
        | step proper file isDot =>
          cases found
          cases found'
          rw [isDot, isDot']
  | fork comments forked below above symbol later =>
    cases below with
    | step proper => exact absurd ⟨proper, forked⟩ apart

end Sees

/-- Two runs whose texts differ in the depth of one qualifier. -/
structure Twin (detour : Detour) (left right : Parser) : Prop where
  sees : detour.Sees left.sight right.sight
  buffered : right.buffered.length = left.buffered.length
  /-- No grammar looks further ahead. -/
  short : left.buffered.length ≤ 2
  depth : right.depth = left.depth
  steady : left.Steady detour.texts
  calm : right.Calm detour.others

abbrev AtFork (detour : Detour) (parser : Parser) : Prop := detour.Forked parser.nearest

structure Steps (detour : Detour) (left right next other : Parser) : Prop where
  twin : detour.Twin next other
  progress : other.remaining + left.remaining ≤ right.remaining + next.remaining

namespace Steps

variable {left right next other final last : Parser}

theorem refl (twin : detour.Twin left right) : detour.Steps left right left right :=
  ⟨twin, Nat.le_refl _⟩

theorem trans (first : detour.Steps left right next other)
    (second : detour.Steps next other final last) : detour.Steps left right final last where
  twin := second.twin
  progress := by
    have one := first.progress
    have two := second.progress
    omega

end Steps

namespace Twin

variable {left right : Parser} (twin : detour.Twin left right)

include twin

theorem meets : detour.Meets left.nearest right.nearest := by
  obtain ⟨later, seen⟩ := exists_sight left
  obtain ⟨later', seen'⟩ := exists_sight right
  have sees := twin.sees
  rw [seen, seen'] at sees
  exact sees.head

theorem ahead : right.ahead = left.ahead := twin.meets.token

theorem isAtEnd : right.isAtEnd = left.isAtEnd :=
  decide_eq_decide.2 (by rw [twin.ahead])

theorem blank : right.aheadSpan.blank = left.aheadSpan.blank :=
  Span.blank_eq_iff.2 twin.meets.file

theorem lexeme (lookedUp : left.ahead.isLookedUp = true) :
    right.context.lexemeAt right.aheadSpan.start = left.context.lexemeAt left.aheadSpan.start := by
  rw [twin.steady.lexemeAt lookedUp,
    twin.calm.steady.lexemeAt (by rw [twin.ahead]; exact lookedUp)]
  exact twin.meets.texts lookedUp

theorem atDepth (depth : Nat) : detour.Twin { left with depth } { right with depth } :=
  { twin with
    depth := rfl
    steady := { twin.steady with }
    calm := twin.calm.atDepth depth }

theorem consume (inner : left.ahead ≠ .endOfInput) (apart : ¬detour.AtFork left) :
    detour.Steps left right left.consume right.consume := by
  obtain ⟨behind, whole⟩ := exists_sight left
  obtain ⟨behind', whole'⟩ := exists_sight right
  have sees := twin.sees
  rw [whole, whole'] at sees
  cases sees with
  | ended ended => exact absurd ended inner
  | fork comments place below above symbol later =>
    cases below with
    | step proper => exact absurd ⟨proper, place⟩ apart
  | further inner apart meets touches later =>
    obtain ⟨seen, remains⟩ := sight_consume whole
    obtain ⟨seen', remains'⟩ := sight_consume whole'
    have next := later.head
    have sameBuffer : right.buffered = [] ↔ left.buffered = [] := by
      rw [← List.length_eq_zero_iff, ← List.length_eq_zero_iff, twin.buffered]
    have kept := consume_keeps left
    have kept' := consume_keeps right
    constructor
    · exact
        { sees := by
            rw [seen, seen']
            exact later.near
          buffered := by
            rw [Course.Pairs.length_buffered_consume, Course.Pairs.length_buffered_consume,
              twin.buffered]
          short := by
            rw [Course.Pairs.length_buffered_consume]
            have short := twin.short
            omega
          depth := kept'.2.1.trans (twin.depth.trans kept.2.1.symm)
          steady := twin.steady.consume
          calm := twin.calm.consume }
    · have heads : isInner right.nearest.token = isInner left.nearest.token :=
        congrArg isInner meets.token
      rw [next.token, next.comments] at remains'
      simp only [sameBuffer, heads] at remains remains'
      split at remains <;> rename_i empty <;> simp only [empty, if_true, if_false] at remains' <;>
        omega

theorem fill_one (room : left.buffered.length ≤ 1)
    (within : left.buffered.length + 1 < left.sight.length) :
    detour.Steps left right (left.fill 1) (right.fill 1) := by
  obtain ⟨front, first, firsts, front', second, seconds, split, split', length, length', alike,
    goes⟩ := twin.sees.split (Nat.succ_le_succ room) within
  obtain ⟨seen, remains⟩ := sight_fill split length
  obtain ⟨seen', remains'⟩ := sight_fill split' (length'.trans (by rw [twin.buffered]))
  rw [← seen, ← seen'] at goes
  refine ⟨?_, ?_⟩
  · exact
      { sees := goes
        buffered := by rw [length_buffered_fill, length_buffered_fill, twin.buffered]
        short := by
          rw [length_buffered_fill]
          exact Nat.succ_le_succ room
        depth := twin.depth
        steady := twin.steady.fill
        calm := twin.calm.fill_one }
  · rw [alike.inner, alike.comments] at remains'
    omega

omit twin in
theorem length_sight_fill {parser : Parser} (within : parser.buffered.length + 1 < parser.sight.length) :
    (parser.fill 1).sight.length = parser.sight.length := by
  obtain ⟨front, next, later, split, length⟩ : ∃ front next later,
      parser.sight = front ++ next :: later ∧ front.length = parser.buffered.length + 1 :=
    ⟨_, _, _, (List.take_append_drop (parser.buffered.length + 1) parser.sight).symm.trans
      (by rw [List.drop_eq_getElem_cons within]), by simp; omega⟩
  rw [(sight_fill split length).1, split]
  simp

omit twin in
theorem length_sight_peek {parser : Parser} {distance : Nat} (near : 1 ≤ distance)
    (reachable : distance ≤ reach) (within : distance < parser.sight.length) :
    (parser.peek distance).2.sight.length = parser.sight.length := by
  have filled : ∀ count (parser : Parser), parser.buffered.length + count < parser.sight.length →
      (parser.fill count).sight.length = parser.sight.length := by
    intro count
    induction count with
    | zero => exact fun _ _ => rfl
    | succ count induction =>
      intro parser within
      have one : (parser.fill 1).sight.length = parser.sight.length := length_sight_fill (by omega)
      have length := length_buffered_fill 1 parser
      exact (induction (parser.fill 1) (by omega)).trans one
  rw [peek_apply near reachable]
  by_cases held : distance ≤ parser.buffered.length
  · rw [Nat.sub_eq_zero_of_le held]
    rfl
  · exact filled _ parser (by omega)

theorem fill {count : Nat} (room : left.buffered.length + count ≤ 2)
    (within : left.buffered.length + count < left.sight.length) :
    detour.Steps left right (left.fill count) (right.fill count) := by
  induction count generalizing left right with
  | zero => exact .refl twin
  | succ count induction =>
    have first := twin.fill_one (by omega) (by omega)
    have length := length_buffered_fill 1 left
    have sight : (left.fill 1).sight.length = left.sight.length := length_sight_fill (by omega)
    exact first.trans (induction first.twin (by rw [length]; omega) (by rw [length, sight]; omega))

theorem peek {distance : Nat} (near : 1 ≤ distance) (close : distance ≤ 2)
    (within : distance < left.sight.length) :
    detour.Steps left right (left.peek distance).2 (right.peek distance).2 := by
  have reachable : distance ≤ reach := Nat.le_trans close (by decide)
  have short := twin.short
  have inside : left.buffered.length < left.sight.length := by
    simp only [sight, List.length_cons, List.length_append, List.length_map]
    omega
  have filled : detour.Steps left right (left.fill (distance - left.buffered.length))
      (right.fill (distance - right.buffered.length)) := by
    rw [twin.buffered]
    exact twin.fill (by omega) (by omega)
  rw [peek_apply near reachable, peek_apply near reachable]
  exact filled

/-- Where the fork is not next both runs find the same token up to two places ahead. -/
theorem glance (apart : ¬detour.AtFork left) {place : Nat} (close : place ≤ 2)
    (within : place < left.sight.length) :
    (right.upcoming.get place).1 = (left.upcoming.get place).1 := by
  obtain ⟨front, first, before, front', second, after, split, split', length, length', -⟩ :=
    twin.sees.split close within
  have found : left.sight[place]? = some first := by
    rw [split, List.getElem?_append_right (Nat.le_of_eq length), length, Nat.sub_self]
    rfl
  have found' : right.sight[place]? = some second := by
    rw [split', List.getElem?_append_right (Nat.le_of_eq length'), length', Nat.sub_self]
    rfl
  rw [upcoming_of_sight _ _ found, upcoming_of_sight _ _ found']
  obtain ⟨behind, whole⟩ := exists_sight left
  have sees := twin.sees
  rw [whole] at sees found
  exact sees.ahead apart close found found'

theorem two_of_inner (inner : left.ahead ≠ .endOfInput) : 1 < left.sight.length := by
  obtain ⟨behind, whole⟩ := exists_sight left
  have sees := twin.sees
  rw [whole] at sees ⊢
  exact sees.two_of_inner inner

/-- Two tokens ahead there is something to see if the next one does not end the input either. -/
theorem three_of_inner (inner : left.ahead ≠ .endOfInput)
    (further : (left.upcoming.get 1).1 ≠ .endOfInput) : 2 < left.sight.length := by
  obtain ⟨behind, whole⟩ := exists_sight left
  obtain ⟨behind', whole'⟩ := exists_sight right
  have sees := twin.sees
  rw [whole, whole'] at sees
  rw [whole]
  cases sees with
  | ended ended => exact absurd ended inner
  | further _ _ _ _ later =>
    have next := upcoming_of_sight left 1 (congrArg (·[1]?) whole)
    have long := later.two_of_inner (by rwa [next] at further)
    simpa using long
  | fork _ _ below =>
    cases below with
    | step => simp

theorem dotted (forked : detour.AtFork left) :
    (left.upcoming.get 1).1 = .dot ∧ (right.upcoming.get 1).1 = .dot := by
  obtain ⟨behind, whole⟩ := exists_sight left
  obtain ⟨behind', whole'⟩ := exists_sight right
  have sees := twin.sees
  rw [whole, whole'] at sees
  cases sees with
  | ended ended =>
    rw [forked.1] at ended
    cases ended
  | further inner apart => exact absurd forked apart.not_forked
  | fork comments place below above symbol later =>
    obtain ⟨dot', next', later', rfl, -, -, isDot', -⟩ := exists_above above
    cases below with
    | step proper file isDot =>
      rw [upcoming_of_sight left 1 (congrArg (·[1]?) whole),
        upcoming_of_sight right 1 (congrArg (·[1]?) whole')]
      exact ⟨isDot, isDot'⟩

end Twin

end Detour

end Parser

namespace Haskell.Grammar

open Offside.Parser Offside.Parse

/-- A segment is next with a dot and something of a kind that it qualifies, all touching. -/
def qualifies (isKind : Token → Bool) (tokens : Stream' (Token × Span)) : Bool :=
  (tokens.get 0).1 = .properIdentifier ∧ (tokens.get 1).1 = .dot ∧
    isKind (tokens.get 2).1 = true ∧ (tokens.get 0).2.stop = (tokens.get 1).2.start ∧
      (tokens.get 1).2.stop = (tokens.get 2).2.start

theorem qualifierFollows_tells (tokens : Stream' (Token × Span)) :
    Glances tokens qualifierFollows (· = qualifies isQualified tokens) := by
  refine Glances.isAt.bind fun stands proper => ?_
  by_cases isProper : (tokens.get 0).1 = .properIdentifier
  · rw [proper, decide_eq_true isProper]
    refine (Glances.peek (by decide) (by decide)).bind fun next second => ?_
    rw [second]
    by_cases isDot : (tokens.get 1).1 = .dot
    · rw [isDot]
      refine (Glances.peek (by decide) (by decide)).bind fun last third => ?_
      rw [third]
      refine .ite (fun named => ?_) fun other => .pure ?_
      · refine Glances.aheadSpan.bind fun first isFirst =>
          (Glances.peekSpan (by decide) (by decide)).bind fun dot dotSpan =>
            (Glances.peekSpan (by decide) (by decide)).bind fun final isFinal => .pure ?_
        have named : isQualified (tokens.get 2).1 = true := decide_eq_true named
        rw [isFirst, dotSpan, isFinal, qualifies]
        simp [isProper, isDot, named]
      · have other : isQualified (tokens.get 2).1 = false := decide_eq_false other
        simp [qualifies, other]
    · exact .ite (fun _ => .pure (by simp [qualifies, isDot])) fun same => absurd same (by simpa using isDot)
  · rw [proper, decide_eq_false isProper]
    exact .pure (by simp [qualifies, isProper])

theorem qualifiedSymbolFollows_tells {isKind : Token → Bool}
    (named : ∀ token, isKind token = true → isQualified token = true)
    (tokens : Stream' (Token × Span)) :
    Glances tokens (qualifiedSymbolFollows isKind) (· = qualifies isKind tokens) := by
  refine (qualifierFollows_tells tokens).bind fun follows told => ?_
  rw [told]
  refine .ite (fun found => (Glances.peek (by decide) (by decide)).bind fun last third => .pure ?_)
    fun other => .pure ?_
  · rw [third]
    simp only [qualifies, decide_eq_true_eq] at found
    simp [qualifies, found]
  · symm
    rw [Bool.eq_false_iff]
    intro found
    apply other
    simp only [qualifies, decide_eq_true_eq] at found ⊢
    exact ⟨found.1, found.2.1, named _ found.2.2.1, found.2.2.2⟩

/-- Looking for a qualifier pulls no more tokens than it takes to tell. -/
theorem qualifierFollows_state (parser : Parser) :
    (qualifierFollows parser).2 =
      if parser.ahead = .properIdentifier then
        if (parser.upcoming.get 1).1 = .dot then ((parser.peek 1).2.peek 2).2
        else (parser.peek 1).2
      else parser := by
  have bothAt : ∀ distance (parser : Parser),
      (modifyGet (Parser.peek distance) : Parse (Token × Span)) parser = parser.peek distance :=
    fun _ _ => rfl
  rw [qualifierFollows_eq, ← (glimpse (by decide) (by decide) parser).1]
  unfold qualifierInSight
  by_cases proper : parser.ahead = .properIdentifier
  · have atProper : isAt .properIdentifier parser = (true, parser) := by
      rw [← decide_eq_true proper]
      rfl
    rw [bind_apply, atProper, if_pos proper]
    simp only [Bool.not_true, Bool.false_eq_true, if_false]
    rw [bind_apply, bothAt]
    by_cases dot : (parser.peek 1).1.1 = .dot
    · have isDot : ((parser.peek 1).1.1 != .dot) = false := by simp [dot]
      rw [if_pos dot, isDot]
      simp only [Bool.false_eq_true, if_false]
      rw [bind_apply, bothAt]
      split <;> rfl
    · rw [if_neg dot, if_pos (by simpa using dot)]
      rfl
  · have elsewhere : isAt .properIdentifier parser = (false, parser) := by
      rw [← decide_eq_false proper]
      rfl
    rw [bind_apply, elsewhere, if_neg proper]
    rfl

variable {detour : Detour} {left right : Parser}

/-- Where the fork is not next the same is qualified in both runs. -/
theorem qualifies_alike {isKind : Token → Bool} (twin : detour.Twin left right)
    (apart : ¬detour.AtFork left) :
    qualifies isKind right.upcoming = qualifies isKind left.upcoming := by
  obtain ⟨behind, whole⟩ := exists_sight left
  obtain ⟨behind', whole'⟩ := exists_sight right
  have sees := twin.sees
  rw [whole, whole'] at sees
  have here := upcoming_of_sight left 0 (congrArg (·[0]?) whole)
  have here' := upcoming_of_sight right 0 (congrArg (·[0]?) whole')
  have same := sees.head.token
  by_cases proper : left.ahead = .properIdentifier
  case neg =>
    have proper' : right.ahead ≠ .properIdentifier := by rwa [twin.ahead]
    simp only [qualifies, here, here', show left.nearest.token = left.ahead from rfl,
      show right.nearest.token = right.ahead from rfl, proper, proper', false_and]
  cases sees with
  | ended ended =>
    rw [show left.ahead = _ from ended] at proper
    cases proper
  | fork comments place below above symbol later => exact absurd ⟨proper, place⟩ apart
  | further inner apart meets touches later =>
    have next := upcoming_of_sight left 1 (congrArg (·[1]?) whole)
    have next' := upcoming_of_sight right 1 (congrArg (·[1]?) whole')
    have sameNext := later.head.token
    cases later with
    | ended ended meets =>
      simp only [qualifies, next, next', sameNext, ended, reduceCtorEq, false_and, and_false]
    | fork comments place below above symbol later =>
      cases below with
      | step isProper =>
        simp only [qualifies, next, next', sameNext, isProper, reduceCtorEq, false_and,
          and_false]
    | further inner apartNext meetsNext touchesNext later =>
      have last := upcoming_of_sight left 2 (congrArg (·[2]?) whole)
      have last' := upcoming_of_sight right 2 (congrArg (·[2]?) whole')
      simp only [qualifies, here, here', next, next', last, last', same, sameNext,
        later.head.token, touches, touchesNext]

/-- Looking for a qualifier makes no difference, not even at the fork. -/
theorem qualifierFollows_steps (twin : detour.Twin left right) :
    detour.Steps left right (qualifierFollows left).2 (qualifierFollows right).2 := by
  obtain ⟨behind, whole⟩ := exists_sight left
  obtain ⟨behind', whole'⟩ := exists_sight right
  have sees := twin.sees
  rw [whole, whole'] at sees
  rw [qualifierFollows_state, qualifierFollows_state, twin.ahead]
  split
  case isFalse => exact .refl twin
  case isTrue proper =>
    have two := twin.two_of_inner (show left.ahead ≠ _ by rw [proper]; decide)
    have first := twin.peek (by decide) (by decide) two
    have long := Detour.Twin.length_sight_peek (by decide) (by decide) two
    have looks : (left.upcoming.get 1).1 = .dot →
        detour.Steps left right ((left.peek 1).2.peek 2).2 ((right.peek 1).2.peek 2).2 := by
      intro dot
      refine first.trans (first.twin.peek (by decide) (by decide) ?_)
      rw [long]
      exact twin.three_of_inner (show left.ahead ≠ _ by rw [proper]; decide)
        (by rw [dot]; decide)
    have same : (right.upcoming.get 1).1 = (left.upcoming.get 1).1 := by
      by_cases forked : detour.AtFork left
      · rw [(twin.dotted forked).1, (twin.dotted forked).2]
      · exact twin.glance forked (by decide) two
    rw [same]
    split
    · rename_i dot
      exact looks dot
    · exact first

end Haskell.Grammar

end Offside
