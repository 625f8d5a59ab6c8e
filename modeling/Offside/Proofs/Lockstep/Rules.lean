import Offside.Proofs.Parser.Reading

/-!
Two runs of a grammar in lockstep. The states of two parsers are paired, and a production mirrors
another one if from paired states the two come to paired states again, the second with the value of the
first at other spans. What is paired is left open: the laws below say what the engine has to keep of
it, and the rules follow the shape of a production as those for how it ends do.

Three kinds of comparison are served. A pairing may excuse what goes wrong in the first run, and then
nothing is promised of runs that are not good. It may keep track of the brackets that are open. And it
may let the first run see the end of a block where the second sees a separator; at this seam the first
run looks ahead but consumes nothing. The braces that layout adds may stand at other places in the
second run, so a span is asked for where another token is needed.
-/

namespace Offside

set_option autoImplicit false

open Offside.Lexical

def closeInnermost (opening : Token) : List Token → Option (List Token)
  | [] => none
  | innermost :: outer => if innermost = opening then some outer else none

/-- The brackets that are open after a token. -/
def nestAfter (brackets : List Token) : Token → Option (List Token)
  | .openParen => some (.openParen :: brackets)
  | .openBracket => some (.openBracket :: brackets)
  | .openBrace => some (.openBrace :: brackets)
  | .closeParen => closeInnermost .openParen brackets
  | .closeBracket => closeInnermost .openBracket brackets
  | .closeBrace => closeInnermost .openBrace brackets
  | _ => some brackets

def Token.isBrace (token : Token) : Bool := token = .openBrace || token = .closeBrace

def Token.isPlain (token : Token) : Bool :=
  token ≠ .endOfInput && !token.isOpening && !token.isClosing

/-- Tokens that tell a closing brace and a separator from one another. -/
def Token.isTelling (token : Token) : Bool := token = .closeBrace || token = .semicolon

variable {token : Token}

theorem Token.inner_of_plain (plain : token.isPlain = true) : token ≠ .endOfInput := by
  rintro rfl
  cases plain

theorem Token.isBrace_of_plain (plain : token.isPlain = true) : token.isBrace = false := by
  cases token <;> first | rfl | cases plain

theorem nestAfter_plain (plain : token.isPlain = true) (brackets : List Token) :
    nestAfter brackets token = some brackets := by
  cases token <;> first | rfl | cases plain

theorem exists_nestAfter (token : Token) :
    ∃ brackets after, nestAfter brackets token = some after := by
  cases token with
  | closeParen => exact ⟨[.openParen], [], rfl⟩
  | closeBracket => exact ⟨[.openBracket], [], rfl⟩
  | closeBrace => exact ⟨[.openBrace], [], rfl⟩
  | _ => exact ⟨[], _, rfl⟩

namespace Parser

inductive Mishap where
  | unexpected
  | failure
  | nesting
  | report (problem : Problem) (span : Span)
  | raised (fault : Fault)

def Mishap.apply : Mishap → Parser → Parser
  | .unexpected, parser => parser.reportUnexpected
  | .failure, parser => parser.fail
  | .nesting, parser => parser.refuseNesting.2
  | .report problem span, parser =>
    { parser with context := parser.context.report problem span }
  | .raised fault, parser => parser.raise fault

theorem Mishap.spoils (mishap : Mishap) (parser : Parser) : ¬(mishap.apply parser).Clean := by
  cases mishap with
  | unexpected => exact reportUnexpected_spoils parser
  | failure => exact fail_spoils parser
  | nesting => exact refuseNesting_spoils parser
  | report problem span => exact report_spoils
  | raised fault => exact raise_spoils parser fault

end Parser

open Offside.Parser

structure Pairing where
  /-- What a span of the first run is in the second. -/
  move : Span → Span
  /-- The states that are compared, after brackets that are open. -/
  pairs : List Token → Parser → Parser → Prop
  /-- States of the first run at which nothing went wrong yet. -/
  good : Parser → Prop
  /-- States of the first run at the closing brace for which the second has a separator. -/
  seam : Parser → Prop

namespace Pairing

variable {pairing : Pairing} {before after brackets : List Token} {left right next other : Parser}

structure Steps (pairing : Pairing) (after : List Token) (left right next other : Parser) :
    Prop where
  pairs : pairing.pairs after next other
  progress : other.remaining + left.remaining ≤ right.remaining + next.remaining

theorem Steps.refl (pairs : pairing.pairs after left right) :
    pairing.Steps after left right left right :=
  ⟨pairs, Nat.le_refl _⟩

theorem Steps.trans {final last : Parser} (first : pairing.Steps before left right next other)
    (second : pairing.Steps after next other final last) :
    pairing.Steps after left right final last where
  pairs := second.pairs
  progress := by
    have one := first.progress
    have two := second.progress
    omega

/-- Neither run is told apart from the other, and the open brackets are not kept track of. -/
structure Loose (pairing : Pairing) : Prop where
  seamless : ∀ parser, ¬pairing.seam parser
  untracked : ∀ before after left right, pairing.pairs before left right →
    pairing.pairs after left right

/-- Whatever goes wrong goes wrong in both runs alike. -/
structure Forgiving (pairing : Pairing) : Prop extends pairing.Loose where
  move : pairing.move = id
  good : ∀ parser, pairing.good parser
  aheadSpan : ∀ {brackets left right}, pairing.pairs brackets left right →
    right.aheadSpan = left.aheadSpan
  exact : ∀ {brackets left right}, pairing.pairs brackets left right →
    right.remaining = left.remaining
  consume : ∀ {brackets left right}, pairing.pairs brackets left right →
    pairing.pairs brackets left.consume right.consume
  mishap : ∀ {brackets left right}, pairing.pairs brackets left right → ∀ mishap : Mishap,
    pairing.pairs brackets (mishap.apply left) (mishap.apply right)

/-- Two tokens that were looked at: the same, or the closing brace and the separator at the seam. -/
structure Glimpses (pairing : Pairing) (first second : Token × Span) : Prop where
  token : second.1 = first.1 ∨ first.1 = .closeBrace ∧ second.1 = .semicolon
  span : first.1.isBrace = false → second.2 = pairing.move first.2

theorem Glimpses.eq_of_solid {first second : Token × Span} (glimpses : pairing.Glimpses first second)
    (solid : first.1.isBrace = false) : second = (first.1, pairing.move first.2) := by
  rcases glimpses.token with same | ⟨closes, -⟩
  · exact Prod.ext same (glimpses.span solid)
  · rw [closes] at solid
    cases solid

theorem Glimpses.question {α : Type} {first second : Token × Span}
    (glimpses : pairing.Glimpses first second) (question : Token → α)
    (blind : question .semicolon = question .closeBrace) : question second.1 = question first.1 := by
  rcases glimpses.token with same | ⟨closes, separates⟩
  · rw [same]
  · rw [closes, separates, blind]

/-- A token that may be looked at: what comes after the end of input or after the brace at the seam is
not. -/
def Reachable (distance : Nat) (parser : Parser) : Prop :=
  distance = 1 ∨ distance = 2 ∧ parser.consume.ahead ≠ .endOfInput ∧
    parser.consume.ahead ≠ .closeBrace

class Lawful (pairing : Pairing) : Prop where
  file : ∀ span, (pairing.move span).file = span.file
  through : ∀ first last,
    pairing.move (first.through last) = (pairing.move first).through (pairing.move last)
  touches : ∀ first last,
    (pairing.move first).stop = (pairing.move last).start ↔ first.stop = last.start
  ahead : ∀ {brackets left right}, pairing.pairs brackets left right → ¬pairing.seam left →
    right.ahead = left.ahead
  aheadSpan : ∀ {brackets left right}, pairing.pairs brackets left right →
    left.ahead.isBrace = false → right.aheadSpan = pairing.move left.aheadSpan
  atSeam : ∀ {brackets left right}, pairing.pairs brackets left right → pairing.seam left →
    left.ahead = .closeBrace ∧ right.ahead = .semicolon
  /-- The brace at the seam is not consumed. -/
  stays : ∀ {parser}, pairing.good parser.consume → ¬pairing.seam parser
  good_of_consume : ∀ {parser}, pairing.good parser.consume → pairing.good parser
  seam_of_leads : ∀ {parser next}, Leads (fun _ => True) parser next → pairing.good next →
    pairing.seam parser → pairing.seam next
  spanFrom : ∀ {brackets left right}, pairing.pairs brackets left right → ∀ start,
    right.spanFrom (pairing.move start) = pairing.move (left.spanFrom start)
  lexeme : ∀ {brackets left right}, pairing.pairs brackets left right →
    left.ahead.isLookedUp = true →
      right.context.lexemeAt right.aheadSpan.start = left.context.lexemeAt left.aheadSpan.start
  depth : ∀ {brackets left right}, pairing.pairs brackets left right → right.depth = left.depth
  atDepth : ∀ {brackets left right}, pairing.pairs brackets left right → ∀ depth,
    pairing.pairs brackets { left with depth } { right with depth }
  good_atDepth : ∀ (parser : Parser) depth, pairing.good { parser with depth } ↔
    pairing.good parser
  seam_atDepth : ∀ (parser : Parser) depth, pairing.seam { parser with depth } ↔
    pairing.seam parser
  good_of_leads : ∀ {parser next}, Leads (fun _ => True) parser next → pairing.good next →
    pairing.good parser
  mishap : ∀ (mishap : Mishap) parser, pairing.good (mishap.apply parser) → pairing.Forgiving
  consume : ∀ {before after left right}, pairing.pairs before left right →
    left.isAtEnd = false → nestAfter before left.ahead = some after → pairing.good left.consume →
      pairing.Steps after left right left.consume right.consume
  peek : ∀ {brackets left right distance}, pairing.pairs brackets left right →
    left.isAtEnd = false → left.ahead.isBrace = false → Reachable distance left →
      pairing.good (left.peek distance).2 →
      pairing.Glimpses (left.peek distance).1 (right.peek distance).1 ∧
        pairing.Steps brackets left right (left.peek distance).2 (right.peek distance).2

namespace Forgiving

theorem steps (forgiving : pairing.Forgiving) (pairs : pairing.pairs before left right)
    (goesOn : pairing.pairs brackets next other) : pairing.Steps after left right next other where
  pairs := forgiving.untracked _ _ _ _ goesOn
  progress := by rw [forgiving.exact goesOn, forgiving.exact pairs, Nat.add_comm]

theorem ahead [lawful : pairing.Lawful] (forgiving : pairing.Forgiving)
    (pairs : pairing.pairs before left right) : right.ahead = left.ahead :=
  lawful.ahead pairs (forgiving.seamless left)

end Forgiving

def apart (pairing : Pairing) : Pairing :=
  { pairing with good := fun parser => pairing.good parser ∧ ¬pairing.seam parser }

def Apart (pairing : Pairing) : Prop := ∀ parser, pairing.good parser → ¬pairing.seam parser

theorem apart_apart (pairing : Pairing) : pairing.apart.Apart := fun _ good => good.2

theorem Steps.ofApart (steps : pairing.apart.Steps after left right next other) :
    pairing.Steps after left right next other :=
  ⟨steps.pairs, steps.progress⟩

theorem Forgiving.ofApart (forgiving : pairing.apart.Forgiving) : pairing.Forgiving where
  seamless := forgiving.seamless
  untracked := forgiving.untracked
  move := forgiving.move
  good := fun parser => (forgiving.good parser).1
  aheadSpan := forgiving.aheadSpan
  exact := forgiving.exact
  consume := forgiving.consume
  mishap := forgiving.mishap

theorem Forgiving.apart (forgiving : pairing.Forgiving) : pairing.apart.Forgiving where
  seamless := forgiving.seamless
  untracked := forgiving.untracked
  move := forgiving.move
  good := fun parser => ⟨forgiving.good parser, forgiving.seamless parser⟩
  aheadSpan := forgiving.aheadSpan
  exact := forgiving.exact
  consume := forgiving.consume
  mishap := forgiving.mishap

instance [lawful : pairing.Lawful] : pairing.apart.Lawful where
  file := lawful.file
  through := lawful.through
  touches := lawful.touches
  ahead := lawful.ahead
  aheadSpan := lawful.aheadSpan
  atSeam := lawful.atSeam
  stays := fun good => lawful.stays good.1
  good_of_consume := fun good => ⟨lawful.good_of_consume good.1, lawful.stays good.1⟩
  seam_of_leads := fun leads good => lawful.seam_of_leads leads good.1
  spanFrom := lawful.spanFrom
  lexeme := lawful.lexeme
  depth := lawful.depth
  atDepth := lawful.atDepth
  good_atDepth := fun parser depth =>
    and_congr (lawful.good_atDepth parser depth) (not_congr (lawful.seam_atDepth parser depth))
  seam_atDepth := lawful.seam_atDepth
  good_of_leads := fun leads good =>
    ⟨lawful.good_of_leads leads good.1, fun seam => good.2 (lawful.seam_of_leads leads good.1 seam)⟩
  mishap := fun mishap parser good => (lawful.mishap mishap parser good.1).apart
  consume := fun pairs inner nest good =>
    have steps := lawful.consume pairs inner nest good.1
    ⟨steps.pairs, steps.progress⟩
  peek := fun pairs inner solid near good =>
    have seen := lawful.peek pairs inner solid near good.1
    ⟨⟨seen.1.token, seen.1.span⟩, seen.2.pairs, seen.2.progress⟩

end Pairing

namespace Parse

variable {α β γ : Type} {pairing : Pairing} {eager : Bool} {before between after : List Token}
  {left right : Parser}

structure Mirrored (pairing : Pairing) (eager : Bool) (after : List Token) (change : α → α)
    (left right : Parser) (found other : α × Parser) : Prop where
  steps : pairing.Steps after left right found.2 other.2
  solid : eager = true → left.ahead.isBrace = false ∨ pairing.Forgiving
  value : other.1 = change found.1

/-- From paired states a production whose run is good is mirrored by another. An eager one is not good
at a brace, unless all is good. Where a run ends good it started good. -/
structure Mirrors (pairing : Pairing) (eager : Bool) (before after : List Token)
    (first second : Parse α) (change : α → α) (left right : Parser) : Prop where
  backward : pairing.good (first left).2 → pairing.good left
  forward : pairing.pairs before left right → pairing.good (first left).2 →
    Mirrored pairing eager after change left right (first left) (second right)

abbrev Keeps (pairing : Pairing) (eager : Bool) (production : Parse α) (change : α → α) : Prop :=
  ∀ brackets left right,
    Mirrors pairing eager brackets brackets production production change left right

section Rules

variable {change : β → β}

@[simp] theorem mirrors_bind_assoc {δ : Type} {first other : Parse α} {second third : α → Parse γ}
    {fourth fifth : γ → Parse δ} {change : δ → δ} :
    Mirrors pairing eager before after ((first >>= second) >>= fourth)
        ((other >>= third) >>= fifth) change left right ↔
      Mirrors pairing eager before after (first >>= fun value => second value >>= fourth)
        (other >>= fun value => third value >>= fifth) change left right :=
  Iff.rfl

@[simp] theorem mirrors_pure_bind {value other : α} {next mirror : α → Parse β} :
    Mirrors pairing eager before after (pure value >>= next) (pure other >>= mirror) change left
        right ↔
      Mirrors pairing eager before after (next value) (mirror other) change left right :=
  Iff.rfl

theorem Mirrors.pure {value other : β} (same : other = change value) :
    Mirrors pairing false before before (pure value) (pure other) change left right where
  backward := id
  forward := fun pairs _ => ⟨.refl pairs, (fun isEager => nomatch isEager), same⟩

theorem Mirrors.relax {first second : Parse β}
    (mirrors : Mirrors pairing true before after first second change left right) :
    Mirrors pairing eager before after first second change left right where
  backward := mirrors.backward
  forward := fun pairs good =>
    { mirrors.forward pairs good with solid := fun _ => (mirrors.forward pairs good).solid rfl }

theorem Mirrors.lax {first second : Parse β}
    (mirrors : Mirrors pairing eager before after first second change left right) :
    Mirrors pairing false before after first second change left right where
  backward := mirrors.backward
  forward := fun pairs good =>
    { mirrors.forward pairs good with solid := fun isEager => nomatch isEager }

/-- A production that starts at another token than a brace is eager. -/
theorem Mirrors.solid {first second : Parse β} (solid : left.ahead.isBrace = false)
    (mirrors : Mirrors pairing false before after first second change left right) :
    Mirrors pairing eager before after first second change left right where
  backward := mirrors.backward
  forward := fun pairs good =>
    { mirrors.forward pairs good with solid := fun _ => Or.inl solid }

/-- So is one to which everything is forgiven. -/
theorem Mirrors.forgiven {first second : Parse β} (forgiving : pairing.Forgiving)
    (mirrors : Mirrors pairing false before after first second change left right) :
    Mirrors pairing eager before after first second change left right where
  backward := mirrors.backward
  forward := fun pairs good =>
    { mirrors.forward pairs good with solid := fun _ => Or.inr forgiving }

/-- What follows a production is judged where the two runs of that production end. -/
theorem Mirrors.bind_steps {first second : Parse α} {next other : α → Parse β} {moved : α → α}
    (mirrors : Mirrors pairing eager before between first second moved left right)
    (backward : pairing.good (next (first left).1 (first left).2).2 →
      pairing.good (first left).2)
    (later : ∀ opposite, pairing.pairs before left right →
      pairing.Steps between left right (first left).2 opposite →
      Mirrors pairing false between after (next (first left).1) (other (moved (first left).1))
        change (first left).2 opposite) :
    Mirrors pairing eager before after (first >>= next) (second >>= other) change left right where
  backward := fun final => mirrors.backward (backward final)
  forward := by
    intro pairs final
    have began := mirrors.forward pairs (backward final)
    have ended := (later (second right).2 pairs began.steps).forward began.steps.pairs final
    rw [← began.value] at ended
    exact ⟨began.steps.trans ended.steps, began.solid, ended.value⟩

theorem Mirrors.bind_here {first second : Parse α} {next other : α → Parse β} {moved : α → α}
    (mirrors : Mirrors pairing eager before between first second moved left right)
    (later : ∀ opposite, Mirrors pairing false between after (next (first left).1)
      (other (moved (first left).1)) change (first left).2 opposite) :
    Mirrors pairing eager before after (first >>= next) (second >>= other) change left right :=
  Mirrors.bind_steps mirrors (later right).backward fun opposite _ _ => later opposite

theorem Mirrors.bind {first second : Parse α} {next other : α → Parse β} {moved : α → α}
    (mirrors : Mirrors pairing eager before between first second moved left right)
    (later : ∀ value left right, Mirrors pairing false between after (next value)
      (other (moved value)) change left right) :
    Mirrors pairing eager before after (first >>= next) (second >>= other) change left right :=
  Mirrors.bind_here mirrors fun opposite => later _ _ opposite

/-- A production that does not end at the seam, since what follows it is not good there. -/
theorem Mirrors.within {first second : Parse α} {next other : α → Parse β} {moved : α → α}
    (mirrors : Mirrors pairing.apart eager before between first second moved left right)
    (seals : ∀ value middle, pairing.good (next value middle).2 → ¬pairing.seam middle)
    (later : ∀ value left right, Mirrors pairing false between after (next value)
      (other (moved value)) change left right) :
    Mirrors pairing eager before after (first >>= next) (second >>= other) change left right := by
  have backward : pairing.good (next (first left).1 (first left).2).2 →
      pairing.apart.good (first left).2 :=
    fun final => ⟨(later _ _ right).backward final, seals _ _ final⟩
  constructor
  · exact fun final => (mirrors.backward (backward final)).1
  · intro pairs final
    have began := mirrors.forward pairs (backward final)
    have ended := (later (first left).1 (first left).2 (second right).2).forward
      began.steps.pairs final
    rw [← began.value] at ended
    exact ⟨began.steps.ofApart.trans ended.steps,
      fun isEager => (began.solid isEager).imp id Pairing.Forgiving.ofApart, ended.value⟩

theorem Mirrors.map {first second : Parse α} {moved : α → α} {make mirror : α → β}
    (mirrors : Mirrors pairing eager before after first second moved left right)
    (same : ∀ value, mirror (moved value) = change (make value)) :
    Mirrors pairing eager before after (make <$> first) (mirror <$> second) change left right where
  backward := mirrors.backward
  forward := fun pairs good =>
    { mirrors.forward pairs good with
      value := (congrArg mirror (mirrors.forward pairs good).value).trans (same _) }

theorem Mirrors.congr {first second production mirror : Parse β}
    (same : first left = production left)
    (otherSame : pairing.pairs before left right → pairing.good (production left).2 →
      second right = mirror right)
    (mirrors : Mirrors pairing eager before after production mirror change left right) :
    Mirrors pairing eager before after first second change left right where
  backward := by
    rw [same]
    exact mirrors.backward
  forward := by
    intro pairs good
    rw [same] at good ⊢
    rw [otherSame pairs good]
    exact mirrors.forward pairs good

theorem Mirrors.step {first second : Parse α} {next other : α → Parse β} {value moved : α}
    {middle opposite : Parser} (known : first left = (value, middle))
    (otherKnown : pairing.pairs before left right → pairing.good middle →
      second right = (moved, opposite))
    (backward : pairing.good middle → pairing.good left)
    (steps : pairing.pairs before left right → pairing.good middle →
      (eager = true → left.ahead.isBrace = false ∨ pairing.Forgiving) ∧
        pairing.Steps between left right middle opposite)
    (later : Mirrors pairing false between after (next value) (other moved) change middle
      opposite) :
    Mirrors pairing eager before after (first >>= next) (second >>= other) change left right where
  backward := by
    rw [bind_apply, known]
    exact fun final => backward (later.backward final)
  forward := by
    intro pairs final
    rw [bind_apply, known] at final ⊢
    have good := later.backward final
    rw [bind_apply, otherKnown pairs good]
    obtain ⟨solid, stepped⟩ := steps pairs good
    have ended := later.forward stepped.pairs final
    exact ⟨stepped.trans ended.steps, solid, ended.value⟩

/-- After a step by which the run goes wrong it matters no more which brackets are open. What is done
to make up for it has to be alike in both runs. -/
theorem Mirrors.mend [lawful : pairing.Lawful] {first second : Parse α} {next other : α → Parse β}
    {value moved : α} {repair : Parser → Parser} (mishap : Mishap)
    (repairs : ∀ parser, Leads (fun _ => True) parser (repair parser))
    (alike : pairing.Forgiving → ∀ left right, pairing.pairs before left right →
      pairing.pairs before (repair left) (repair right))
    (known : first left = (value, repair (mishap.apply left)))
    (otherKnown : pairing.Forgiving → pairing.pairs before left right →
      second right = (moved, repair (mishap.apply right)))
    (later : ∀ opposite, Mirrors pairing false between after (next value) (other moved) change
      (repair (mishap.apply left)) opposite) :
    Mirrors pairing eager before after (first >>= next) (second >>= other) change left right := by
  have forgives : pairing.good (repair (mishap.apply left)) → pairing.Forgiving :=
    fun good => lawful.mishap mishap left (lawful.good_of_leads (repairs _) good)
  apply Mirrors.step known _ _ _ (later (repair (mishap.apply right)))
  · exact fun pairs good => otherKnown (forgives good) pairs
  · exact fun good => (forgives good).good left
  · intro pairs good
    have forgiving := forgives good
    have spoiled := forgiving.mishap pairs mishap
    exact ⟨fun _ => Or.inr forgiving, forgiving.steps pairs (alike forgiving _ _ spoiled)⟩

theorem Mirrors.spoil [pairing.Lawful] {first second : Parse α} {next other : α → Parse β}
    {value moved : α} (mishap : Mishap) (known : first left = (value, mishap.apply left))
    (otherKnown : pairing.Forgiving → pairing.pairs before left right →
      second right = (moved, mishap.apply right))
    (later : ∀ opposite, Mirrors pairing false between after (next value) (other moved) change
      (mishap.apply left) opposite) :
    Mirrors pairing eager before after (first >>= next) (second >>= other) change left right :=
  have repairs : ∀ parser : Parser, Leads (fun _ => True) parser (id parser) := Leads.refl
  Mirrors.mend mishap repairs (fun _ _ _ pairs => pairs) known otherKnown later

section Engine

variable [lawful : pairing.Lawful]

theorem ahead_or_seam (pairs : pairing.pairs before left right) :
    right.ahead = left.ahead ∨ left.ahead = .closeBrace ∧ right.ahead = .semicolon := by
  by_cases seam : pairing.seam left
  · exact Or.inr (lawful.atSeam pairs seam)
  · exact Or.inl (lawful.ahead pairs seam)

theorem ahead_iff (blind : token.isTelling = false) (pairs : pairing.pairs before left right) :
    right.ahead = token ↔ left.ahead = token := by
  rcases ahead_or_seam pairs with same | ⟨closes, separates⟩
  · rw [same]
  · rw [closes, separates]
    simp only [Token.isTelling, Bool.or_eq_false_iff, decide_eq_false_iff_not] at blind
    exact ⟨fun found => absurd found.symm blind.2, fun found => absurd found.symm blind.1⟩

theorem isAtEnd_iff (pairs : pairing.pairs before left right) : right.isAtEnd = left.isAtEnd :=
  decide_eq_decide.2 (ahead_iff rfl pairs)

/-- Where an eager production is good both runs see the same token. -/
theorem ahead_of_solid (pairs : pairing.pairs before left right)
    (solid : left.ahead.isBrace = false ∨ pairing.Forgiving) :
    right.ahead = left.ahead ∧ right.aheadSpan = pairing.move left.aheadSpan := by
  rcases solid with solid | forgiving
  · refine ⟨?_, lawful.aheadSpan pairs solid⟩
    rcases ahead_or_seam pairs with same | ⟨closes, -⟩
    · exact same
    · rw [closes] at solid
      cases solid
  · refine ⟨forgiving.ahead pairs, ?_⟩
    rw [forgiving.aheadSpan pairs, forgiving.move]
    rfl

/-- A question about the lookahead that does not tell the tokens at the seam apart. -/
theorem Mirrors.ahead_blind {next other : Token → Parse β}
    (blind : other .semicolon = other .closeBrace)
    (mirrors : Mirrors pairing eager before after (next left.ahead) (other left.ahead) change
      left right) :
    Mirrors pairing eager before after (ahead >>= next) (ahead >>= other) change left right := by
  have known : (Parse.ahead >>= next) left = next left.ahead left := rfl
  refine Mirrors.congr known ?_ mirrors
  intro pairs _
  change other right.ahead right = _
  rcases ahead_or_seam pairs with same | ⟨closes, separates⟩
  · rw [same]
  · rw [closes, separates, blind]

theorem Mirrors.ahead {next other : Token → Parse β}
    (mirrors : Mirrors pairing true before after (next left.ahead) (other left.ahead) change
      left right) :
    Mirrors pairing eager before after (ahead >>= next) (ahead >>= other) change left right where
  backward := mirrors.backward
  forward := by
    intro pairs good
    have known := mirrors.forward pairs good
    have applied : (Parse.ahead >>= other) right = other left.ahead right := by
      change other right.ahead right = _
      rw [(ahead_of_solid pairs (known.solid rfl)).1]
    rw [applied]
    exact { known with solid := fun _ => known.solid rfl }

/-- The tokens at the seam may be told apart by a run that does not reach it. -/
theorem Mirrors.ahead_apart {next other : Token → Parse β} (apart : pairing.Apart)
    (mirrors : Mirrors pairing eager before after (next left.ahead) (other left.ahead) change
      left right) :
    Mirrors pairing eager before after (Parse.ahead >>= next) (Parse.ahead >>= other) change left right := by
  have known : (Parse.ahead >>= next) left = next left.ahead left := rfl
  refine Mirrors.congr known ?_ mirrors
  intro pairs good
  change other right.ahead right = _
  rw [lawful.ahead pairs (apart left (mirrors.backward good))]

/-- The span of the lookahead is asked for where a token is needed. -/
theorem Mirrors.aheadSpan {next other : Span → Parse β}
    (mirrors : Mirrors pairing true before after (next left.aheadSpan)
      (other (pairing.move left.aheadSpan)) change left right) :
    Mirrors pairing eager before after (aheadSpan >>= next) (aheadSpan >>= other) change left
      right where
  backward := mirrors.backward
  forward := by
    intro pairs good
    have known := mirrors.forward pairs good
    have applied : (Parse.aheadSpan >>= other) right =
        other (pairing.move left.aheadSpan) right := by
      change other right.aheadSpan right = _
      rw [(ahead_of_solid pairs (known.solid rfl)).2]
    rw [applied]
    exact { known with solid := fun _ => known.solid rfl }

theorem Mirrors.isAt {next other : Bool → Parse β}
    (blind : token.isTelling = false)
    (found : left.ahead = token → Mirrors pairing eager before after (next true) (other true)
      change left right)
    (absent : left.ahead ≠ token → Mirrors pairing eager before after (next false) (other false)
      change left right) :
    Mirrors pairing eager before after (isAt token >>= next) (isAt token >>= other) change left
      right := by
  have asks : Mirrors pairing eager before after (next (decide (left.ahead = token)))
      (other (decide (left.ahead = token))) change left right := by
    by_cases same : left.ahead = token
    · rw [decide_eq_true same]
      exact found same
    · rw [decide_eq_false same]
      exact absent same
  have known : (Parse.isAt token >>= next) left = next (decide (left.ahead = token)) left := rfl
  refine Mirrors.congr known ?_ asks
  intro pairs _
  change other (decide (right.ahead = token)) right = _
  rw [decide_eq_decide.2 (ahead_iff blind pairs)]

theorem Mirrors.isAtEnd {next other : Bool → Parse β}
    (ended : left.isAtEnd = true → Mirrors pairing eager before after (next true) (other true)
      change left right)
    (inner : left.isAtEnd = false → Mirrors pairing eager before after (next false) (other false)
      change left right) :
    Mirrors pairing eager before after (isAtEnd >>= next) (isAtEnd >>= other) change left right := by
  have asks : Mirrors pairing eager before after (next left.isAtEnd) (other left.isAtEnd) change
      left right := by
    cases found : left.isAtEnd with
    | true => exact ended found
    | false => exact inner found
  have known : (Parse.isAtEnd >>= next) left = next left.isAtEnd left := rfl
  refine Mirrors.congr known ?_ asks
  intro pairs _
  change other right.isAtEnd right = _
  rw [isAtEnd_iff pairs]

theorem Mirrors.spanFrom {start : Span} {next other : Span → Parse β}
    (mirrors : Mirrors pairing eager before after (next (left.spanFrom start))
      (other (pairing.move (left.spanFrom start))) change left right) :
    Mirrors pairing eager before after (spanFrom start >>= next)
      (spanFrom (pairing.move start) >>= other) change left right := by
  have known : (Parse.spanFrom start >>= next) left = next (left.spanFrom start) left := rfl
  refine Mirrors.congr known ?_ mirrors
  intro pairs _
  change other (right.spanFrom (pairing.move start)) right = _
  rw [lawful.spanFrom pairs]

theorem Mirrors.finish {start : Span} {make other : Span → β}
    (same : ∀ span, other (pairing.move span) = change (make span)) :
    Mirrors pairing false before before (do return make (← Parse.spanFrom start))
      (do return other (← Parse.spanFrom (pairing.move start))) change left right :=
  Mirrors.spanFrom (Mirrors.pure (same _))

/-- A token is consumed, by an eager production one that is no brace. -/
theorem Mirrors.consume {next other : Unit → Parse β} (inner : left.isAtEnd = false)
    (solid : eager = true → left.ahead.isBrace = false)
    (nest : nestAfter before left.ahead = some between)
    (later : ∀ opposite, Mirrors pairing false between after (next ()) (other ()) change
      left.consume opposite) :
    Mirrors pairing eager before after (consume >>= next) (consume >>= other) change left right := by
  have known : ∀ parser, Parse.consume parser = ((), parser.consume) := fun _ => rfl
  apply Mirrors.step (known left) (fun _ _ => known right)
    lawful.good_of_consume _ (later right.consume)
  intro pairs good
  exact ⟨fun isEager => Or.inl (solid isEager), lawful.consume pairs inner nest good⟩

theorem Mirrors.take {next other : Unit → Parse β} (found : left.ahead = token)
    (inner : token ≠ .endOfInput) (solid : eager = true → token.isBrace = false)
    (nest : nestAfter before token = some between)
    (later : ∀ left right, Mirrors pairing false between after (next ()) (other ()) change left
      right) :
    Mirrors pairing eager before after (Parse.consume >>= next) (Parse.consume >>= other) change
      left right :=
  Mirrors.consume (isAtEnd_of_ahead inner found) (by rw [found]; exact solid)
    (by rw [found]; exact nest) fun opposite => later _ opposite

/-- One that opens and closes nothing. -/
theorem Mirrors.pass {next other : Unit → Parse β} (found : left.ahead = token)
    (plain : token.isPlain = true)
    (later : ∀ left right, Mirrors pairing false before after (next ()) (other ()) change left
      right) :
    Mirrors pairing eager before after (Parse.consume >>= next) (Parse.consume >>= other) change
      left right :=
  Mirrors.take found (Token.inner_of_plain plain) (fun _ => Token.isBrace_of_plain plain)
    (nestAfter_plain plain before) later

theorem Mirrors.fail {next other : Unit → Parse β}
    (later : ∀ left right, Mirrors pairing false between after (next ()) (other ()) change left
      right) :
    Mirrors pairing eager before after (fail >>= next) (fail >>= other) change left right :=
  Mirrors.spoil .failure rfl (fun _ _ => rfl) fun opposite => later _ opposite

theorem Mirrors.reportUnexpected_here {next other : Unit → Parse β}
    (later : ∀ opposite, Mirrors pairing false between after (next ()) (other ()) change
      left.reportUnexpected opposite) :
    Mirrors pairing eager before after (reportUnexpected >>= next) (reportUnexpected >>= other)
      change left right :=
  Mirrors.spoil .unexpected rfl (fun _ _ => rfl) later

theorem Mirrors.reportUnexpected {next other : Unit → Parse β}
    (later : ∀ left right, Mirrors pairing false between after (next ()) (other ()) change left
      right) :
    Mirrors pairing eager before after (reportUnexpected >>= next) (reportUnexpected >>= other)
      change left right :=
  Mirrors.reportUnexpected_here fun opposite => later _ opposite

theorem Mirrors.report {problem : Problem} {span : Span} {next other : Unit → Parse β}
    (later : ∀ left right, Mirrors pairing false between after (next ()) (other ()) change left
      right) :
    Mirrors pairing eager before after
      ((modify fun parser =>
        { parser with context := parser.context.report problem span }) >>= next)
      ((modify fun parser =>
        { parser with context := parser.context.report problem (pairing.move span) }) >>= other)
      change left right := by
  have known : ∀ (span : Span) (parser : Parser),
      (modify (fun parser => { parser with context := parser.context.report problem span }) :
        Parse Unit) parser = ((), (Mishap.report problem span).apply parser) := fun _ _ => rfl
  refine Mirrors.spoil (.report problem span) (known span left) ?_ fun opposite => later _ opposite
  intro forgiving _
  rw [known, forgiving.move]
  rfl

/-- Spans of one file are joined, and those of two files are a fault. -/
theorem Mirrors.join {first last : Span} {next other : Span → Parse β}
    (later : ∀ span left right, Mirrors pairing false before after (next span)
      (other (pairing.move span)) change left right) :
    Mirrors pairing false before after (join first last >>= next)
      (join (pairing.move first) (pairing.move last) >>= other) change left right := by
  have known : ∀ (first last : Span) (parser : Parser), Parse.join first last parser =
      if first.file = last.file then (first.through last, parser)
      else (default, (Mishap.raised (.filesDiffer first.file last.file)).apply parser) := by
    intro first last parser
    unfold Parse.join Span.join
    split <;> rfl
  by_cases same : first.file = last.file
  · have left' := known first last left
    rw [if_pos same] at left'
    apply Mirrors.step left' _ id _ (later (first.through last) left right)
    · intro _ _
      rw [known, if_pos (by rw [lawful.file, lawful.file, same]), lawful.through]
    · exact fun pairs _ => ⟨(fun isEager => nomatch isEager), .refl pairs⟩
  · have left' := known first last left
    rw [if_neg same] at left'
    apply Mirrors.spoil _ left' _ fun opposite => later default _ opposite
    intro forgiving _
    rw [known, forgiving.move]
    exact if_neg same

theorem Mirrors.accept {next other : Bool → Parse β}
    (inner : token ≠ .endOfInput) (solid : eager = true → token.isBrace = false)
    (blind : token.isTelling = false) (nest : nestAfter before token = some between)
    (taken : ∀ left right, Mirrors pairing false between after (next true) (other true) change
      left right)
    (absent : left.ahead ≠ token → Mirrors pairing eager before after (next false) (other false)
      change left right) :
    Mirrors pairing eager before after (accept token >>= next) (accept token >>= other) change
      left right := by
  by_cases found : left.ahead = token
  · have consumes : Mirrors pairing eager before after (Parse.consume >>= fun _ => next true)
        (Parse.consume >>= fun _ => other true) change left right :=
      Mirrors.take found inner solid nest taken
    apply Mirrors.congr _ _ consumes
    · rw [bind_apply, accept_apply inner, if_pos found]
      rfl
    · intro pairs _
      rw [bind_apply, accept_apply inner, if_pos ((ahead_iff blind pairs).2 found)]
      rfl
  · apply Mirrors.congr _ _ (absent found)
    · rw [bind_apply, accept_apply inner, if_neg found]
    · intro pairs _
      rw [bind_apply, accept_apply inner, if_neg fun same => found ((ahead_iff blind pairs).1 same)]

theorem Mirrors.accept_plain {next other : Bool → Parse β}
    (plain : token.isPlain = true) (blind : token.isTelling = false)
    (taken : ∀ left right, Mirrors pairing false before after (next true) (other true) change
      left right)
    (absent : left.ahead ≠ token → Mirrors pairing eager before after (next false) (other false)
      change left right) :
    Mirrors pairing eager before after (Parse.accept token >>= next)
      (Parse.accept token >>= other) change left right :=
  Mirrors.accept (Token.inner_of_plain plain) (fun _ => Token.isBrace_of_plain plain) blind
    (nestAfter_plain plain before) taken absent

/-- What follows is the same whether or not the token was there. -/
theorem Mirrors.accept_either {next other : Bool → Parse β}
    (plain : token.isPlain = true) (blind : token.isTelling = false)
    (later : ∀ found left right, Mirrors pairing false before after (next found) (other found)
      change left right) :
    Mirrors pairing false before after (Parse.accept token >>= next)
      (Parse.accept token >>= other) change left right :=
  Mirrors.accept_plain plain blind (later true) fun _ => later false left right

/-- A separator is taken or not where another token is needed after it. -/
theorem Mirrors.accept_separator {next other : Bool → Parse β}
    (later : ∀ found left right, Mirrors pairing true before after (next found) (other found)
      change left right) :
    Mirrors pairing eager before after (Parse.accept .semicolon >>= next)
      (Parse.accept .semicolon >>= other) change left right := by
  have inner : Token.semicolon ≠ .endOfInput := by decide
  by_cases found : left.ahead = .semicolon
  · have consumes : Mirrors pairing eager before after (Parse.consume >>= fun _ => next true)
        (Parse.consume >>= fun _ => other true) change left right :=
      Mirrors.pass found rfl fun left right => (later true left right).relax
    apply Mirrors.congr _ _ consumes
    · rw [bind_apply, accept_apply inner, if_pos found]
      rfl
    · intro pairs _
      have same := (ahead_of_solid pairs (Or.inl (by rw [found]; rfl))).1
      rw [bind_apply, accept_apply inner, if_pos (same.trans found)]
      rfl
  · have needs := later false left right
    apply Mirrors.congr _ _ needs.relax
    · rw [bind_apply, accept_apply inner, if_neg found]
    · intro pairs good
      have same := (ahead_of_solid pairs ((needs.forward pairs good).solid rfl)).1
      rw [bind_apply, accept_apply inner, if_neg (by rwa [same])]

/-- A token that is due is consumed, or something went wrong and is made up for. -/
theorem Mirrors.due {production : Parse Bool} {repair : Parser → Parser}
    {missed : List Token} {next other : Bool → Parse β}
    (applied : ∀ parser, production parser =
      if parser.ahead = token then (true, parser.consume) else (false, repair parser.fail))
    (repairs : ∀ parser, Leads (fun _ => True) parser (repair parser))
    (alike : pairing.Forgiving → ∀ left right, pairing.pairs before left right →
      pairing.pairs before (repair left) (repair right))
    (inner : token ≠ .endOfInput) (solid : eager = true → token.isBrace = false)
    (nest : nestAfter before token = some between)
    (taken : ∀ left right, Mirrors pairing false between after (next true) (other true) change
      left right)
    (missing : ∀ left right, Mirrors pairing false missed after (next false) (other false) change
      left right) :
    Mirrors pairing eager before after (production >>= next) (production >>= other) change left
      right := by
  by_cases found : left.ahead = token
  · have atEnd := isAtEnd_of_ahead inner found
    have known := applied left
    rw [if_pos found] at known
    apply Mirrors.step known _ lawful.good_of_consume _ (taken _ right.consume)
    · intro pairs good
      have same := (lawful.ahead pairs (lawful.stays good)).trans found
      rw [applied, if_pos same]
    · intro pairs good
      refine ⟨fun isEager => Or.inl (by rw [found]; exact solid isEager), ?_⟩
      exact lawful.consume pairs atEnd (by rw [found]; exact nest) good
  · have known := applied left
    rw [if_neg found] at known
    apply Mirrors.mend .failure repairs alike known _ fun opposite => missing _ opposite
    intro forgiving pairs
    rw [applied, if_neg (by rwa [forgiving.ahead pairs])]
    rfl

/-- What follows may depend on whether the token was there. -/
theorem Mirrors.expect_either {missed : List Token} {next other : Bool → Parse β}
    (inner : token ≠ .endOfInput) (solid : eager = true → token.isBrace = false)
    (nest : nestAfter before token = some between)
    (taken : ∀ left right, Mirrors pairing false between after (next true) (other true) change
      left right)
    (missing : ∀ left right, Mirrors pairing false missed after (next false) (other false) change
      left right) :
    Mirrors pairing eager before after (expect token >>= next) (expect token >>= other) change
      left right := by
  have applied : ∀ parser : Parser, Parse.expect token parser =
      if parser.ahead = token then (true, parser.consume) else (false, parser.fail) :=
    fun parser => expect_apply inner parser
  exact Mirrors.due applied Leads.refl (fun _ _ _ pairs => pairs) inner solid nest taken missing

theorem Mirrors.expect_plain {next other : Bool → Parse β}
    (plain : token.isPlain = true)
    (later : ∀ found left right, Mirrors pairing false before after (next found) (other found)
      change left right) :
    Mirrors pairing eager before after (Parse.expect token >>= next)
      (Parse.expect token >>= other) change left right :=
  Mirrors.expect_either (Token.inner_of_plain plain) (fun _ => Token.isBrace_of_plain plain)
    (nestAfter_plain plain before) (later true) (later false)

end Engine

end Rules

end Parse

end Offside
