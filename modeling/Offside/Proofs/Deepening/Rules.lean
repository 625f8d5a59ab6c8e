import Offside.Proofs.Deepening.Forks

/-!
Productions and the fork. A production trails another one if wherever the two runs are paired and the
first ends clean, the second ends paired with it and with the value that the first has, up to places
and to the depth of the one qualifier. That is so only where nothing looked for the qualifier by two
tokens; what was looked for is seen in the value, so it is the value that has to be spared. What this
tells of the values that it was made of is passed on from the end of a production to its start, and
what is known of the values of both runs from the start to the end. The rules follow the shape of a
production as those for how it ends do.
-/

namespace Offside

set_option autoImplicit false

open Offside.Parser

def Token.isFree (token : Token) : Bool := token ≠ .endOfInput && token ≠ .properIdentifier

variable {token : Token}

theorem Token.isFree_iff :
    token.isFree = true ↔ token ≠ .endOfInput ∧ token ≠ .properIdentifier := by
  simp [isFree]

namespace Parse

variable {α β γ δ : Type}

theorem mends {production : Parse α} (stays : Stays .mendless production) {parser : Parser}
    (clean : (production parser).2.Clean) : parser.Clean :=
  (stays parser trivial).2 clean

structure Meeting (detour : Detour) (linked : α → β → Prop) (left right : Parser)
    (found : α × Parser) (other : β × Parser) : Prop where
  steps : detour.Steps left right found.2 other.2
  value : linked found.1 other.1

/-- Where a production ends clean and its value is spared, what is needed of earlier values holds; and
from paired states, given what is known of earlier values, another production comes to paired states
again. -/
structure Trails (detour : Detour) (given needs : Prop) (spares : α → Parser → Prop)
    (linked : α → β → Prop) (first : Parse α) (second : Parse β) (left right : Parser) : Prop where
  backward : (first left).2.Clean → left.Clean
  forward : (first left).2.Clean → spares (first left).1 (first left).2 →
    needs ∧ (detour.Twin left right → given →
      Meeting detour linked left right (first left) (second right))

abbrev Tracks (detour : Detour) (spares : α → Parser → Prop) (linked : α → α → Prop)
    (production : Parse α) : Prop :=
  ∀ left right, Trails detour True True spares linked production production left right

/-- Trailing where nothing is looked for by two tokens. -/
abbrev Shadows (detour : Detour) (given : Prop) (linked : α → β → Prop) (first : Parse α)
    (second : Parse β) (left right : Parser) : Prop :=
  Trails detour given True (fun _ _ => True) linked first second left right

abbrev Follows (detour : Detour) (linked : α → α → Prop) (production : Parse α) : Prop :=
  ∀ left right, Shadows detour True linked production production left right

namespace Trails

variable {detour : Detour} {given needs earlier : Prop} {left right : Parser}
  {spares : γ → Parser → Prop} {linked : γ → δ → Prop} {held : α → Parser → Prop}
  {known : α → β → Prop}

section Rules

variable {first : Parse α} {second : Parse β} {next : α → Parse γ} {other : β → Parse δ}

@[simp] theorem bind_assoc_iff {ε ζ : Type} {spares : ε → Parser → Prop} {linked : ε → ζ → Prop}
    {third : γ → Parse ε} {fourth : δ → Parse ζ} :
    Trails detour given needs spares linked ((first >>= next) >>= third)
        ((second >>= other) >>= fourth) left right ↔
      Trails detour given needs spares linked (first >>= fun value => next value >>= third)
        (second >>= fun value => other value >>= fourth) left right :=
  Iff.rfl

@[simp] theorem pure_bind_iff {value : α} {opposite : β} :
    Trails detour given needs spares linked (Pure.pure value >>= next)
        (Pure.pure opposite >>= other) left right ↔
      Trails detour given needs spares linked (next value) (other opposite) left right :=
  Iff.rfl

theorem pure {value : γ} {opposite : δ} (keep : spares value left → needs)
    (same : given → linked value opposite) :
    Trails detour given needs spares linked (Pure.pure value) (Pure.pure opposite) left right where
  backward := id
  forward := fun _ spared => ⟨keep spared, fun twin premise => ⟨.refl twin, same premise⟩⟩

/-- Nothing is promised where something went wrong. -/
theorem unclean {first : Parse γ} {second : Parse δ} (unclean : ¬(first left).2.Clean) :
    Trails detour given needs spares linked first second left right :=
  ⟨fun clean => absurd clean unclean, fun clean => absurd clean unclean⟩

theorem spoil {second : Parse δ} (unclean : ¬(first left).2.Clean)
    (backward : ∀ value after, (next value after).2.Clean → after.Clean) :
    Trails detour given needs spares linked (first >>= next) second left right :=
  .unclean fun clean => unclean (backward _ _ clean)

theorem mono {first : Parse γ} {second : Parse δ} {premise demands : Prop}
    {spared : γ → Parser → Prop} {similar : γ → δ → Prop}
    (trails : Trails detour premise demands spared similar first second left right)
    (enough : given → premise) (needed : spares (first left).1 (first left).2 → demands → needs)
    (keep : (first left).2.Clean → spares (first left).1 (first left).2 →
      spared (first left).1 (first left).2)
    (same : ∀ value opposite, given → similar value opposite → linked value opposite) :
    Trails detour given needs spares linked first second left right where
  backward := trails.backward
  forward := by
    intro clean spares
    obtain ⟨demanded, goesOn⟩ := trails.forward clean (keep clean spares)
    refine ⟨needed spares demanded, fun twin premise => ?_⟩
    have met := goesOn twin (enough premise)
    exact ⟨met.steps, same _ _ premise met.value⟩

theorem needing {first : Parse γ} {second : Parse δ} {demands : Prop}
    (trails : Trails detour given demands spares linked first second left right)
    (needed : demands → needs) : Trails detour given needs spares linked first second left right :=
  trails.mono id (fun _ => needed) (fun _ => id) fun _ _ _ => id

theorem alike {first : Parse γ} {second : Parse δ} {similar : γ → δ → Prop}
    (trails : Trails detour given needs spares similar first second left right)
    (same : ∀ value opposite, similar value opposite → linked value opposite) :
    Trails detour given needs spares linked first second left right :=
  trails.mono id (fun _ => id) (fun _ => id) fun value opposite _ => same value opposite

/-- Nothing has to be spared of a value that is promised anyway. -/
theorem spare {first : Parse γ} {second : Parse δ}
    (trails : Trails detour given needs (fun _ _ => True) linked first second left right) :
    Trails detour given needs spares linked first second left right :=
  trails.mono id (fun _ => id) (fun _ _ => trivial) fun _ _ _ => id

/-- Nothing has to be known for what is promised under less. -/
theorem knowing {first : Parse γ} {second : Parse δ} {premise : Prop}
    (trails : Trails detour premise needs spares linked first second left right)
    (enough : given → premise) : Trails detour given needs spares linked first second left right :=
  trails.mono enough (fun _ => id) (fun _ => id) fun _ _ _ => id

theorem presuming {first : Parse γ} {second : Parse δ}
    (trails : Trails detour True needs spares linked first second left right) :
    Trails detour given needs spares linked first second left right :=
  trails.knowing fun _ => trivial

/-- What follows a production is judged where the first run of that production ends, which may tell
something. What the production needs is needed as well. -/
theorem bind_all (tells : Prop)
    (one : Trails detour given earlier held known first second left right)
    (told : detour.Twin left right → given → (first left).2.Clean → tells)
    (later : ∀ opposite mirror,
      Trails detour ((given ∧ known (first left).1 opposite) ∧ tells)
        (needs ∧ held (first left).1 (first left).2) spares linked (next (first left).1)
        (other opposite) (first left).2 mirror) :
    Trails detour given (needs ∧ earlier) spares linked (first >>= next) (second >>= other) left
      right where
  backward := fun final => one.backward ((later (second right).1 (second right).2).backward final)
  forward := by
    intro clean spared
    have after := later (second right).1 (second right).2
    have middle := after.backward clean
    obtain ⟨⟨needed, spares⟩, goesOn⟩ := after.forward clean spared
    obtain ⟨demanded, meets⟩ := one.forward middle spares
    refine ⟨⟨needed, demanded⟩, fun twin premise => ?_⟩
    have met := meets twin premise
    have ended := goesOn met.steps.twin ⟨⟨premise, met.value⟩, told twin premise middle⟩
    exact ⟨met.steps.trans ended.steps, ended.value⟩

theorem bind_telling (tells : α → Parser → Prop)
    (one : Trails detour given earlier held known first second left right)
    (told : detour.Twin left right → given → (first left).2.Clean →
      tells (first left).1 (first left).2)
    (later : ∀ value opposite middle mirror,
      Trails detour ((given ∧ known value opposite) ∧ tells value middle)
        (needs ∧ held value middle) spares linked (next value) (other opposite) middle mirror) :
    Trails detour given (needs ∧ earlier) spares linked (first >>= next) (second >>= other) left
      right :=
  bind_all _ one told fun opposite mirror => later _ opposite _ mirror

theorem bind_here (one : Trails detour given earlier held known first second left right)
    (later : ∀ opposite mirror,
      Trails detour (given ∧ known (first left).1 opposite)
        (needs ∧ held (first left).1 (first left).2) spares linked (next (first left).1)
        (other opposite) (first left).2 mirror) :
    Trails detour given (needs ∧ earlier) spares linked (first >>= next) (second >>= other) left
      right :=
  bind_all True one (fun _ _ _ => trivial) fun opposite mirror =>
    (later opposite mirror).knowing And.left

theorem bind_both (one : Trails detour given earlier held known first second left right)
    (later : ∀ value opposite middle mirror,
      Trails detour (given ∧ known value opposite) (needs ∧ held value middle) spares linked
        (next value) (other opposite) middle mirror) :
    Trails detour given (needs ∧ earlier) spares linked (first >>= next) (second >>= other) left
      right :=
  bind_here one fun opposite mirror => later _ opposite _ mirror

theorem bind_given (one : Trails detour given earlier held known first second left right)
    (later : ∀ value opposite middle mirror,
      Trails detour (given ∧ known value opposite) (needs ∧ held value middle) spares linked
        (next value) (other opposite) middle mirror) :
    Trails detour given needs spares linked (first >>= next) (second >>= other) left right :=
  (bind_both one later).needing And.left

theorem bind (one : Trails detour True earlier held known first second left right)
    (later : ∀ value opposite middle mirror,
      Trails detour (given ∧ known value opposite) (needs ∧ held value middle) spares linked
        (next value) (other opposite) middle mirror) :
    Trails detour given needs spares linked (first >>= next) (second >>= other) left right :=
  bind_given one.presuming later

theorem map {make : α → γ} {mirror : β → δ}
    (one : Trails detour given needs held known first second left right)
    (keep : ∀ value after, spares (make value) after → held value after)
    (same : ∀ value opposite, known value opposite → linked (make value) (mirror opposite)) :
    Trails detour given needs spares linked (make <$> first) (mirror <$> second) left right where
  backward := one.backward
  forward := by
    intro clean spared
    obtain ⟨needed, goesOn⟩ := one.forward clean (keep _ _ spared)
    refine ⟨needed, fun twin premise => ?_⟩
    have met := goesOn twin premise
    exact ⟨met.steps, same _ _ met.value⟩

theorem congr {first production : Parse γ} {second mirror : Parse δ}
    (same : first left = production left)
    (otherSame : detour.Twin left right → second right = mirror right)
    (trails : Trails detour given needs spares linked production mirror left right) :
    Trails detour given needs spares linked first second left right where
  backward := by
    rw [same]
    exact trails.backward
  forward := by
    rw [same]
    intro clean spared
    obtain ⟨needed, goesOn⟩ := trails.forward clean spared
    refine ⟨needed, fun twin premise => ?_⟩
    rw [otherSame twin]
    exact goesOn twin premise

/-- What is known of earlier values may tell which production the second one is. -/
theorem rewrite {first : Parse γ} {second mirror : Parse δ} (same : given → second = mirror)
    (trails : Trails detour given needs spares linked first mirror left right) :
    Trails detour given needs spares linked first second left right where
  backward := trails.backward
  forward := by
    intro clean spared
    obtain ⟨needed, goesOn⟩ := trails.forward clean spared
    refine ⟨needed, fun twin premise => ?_⟩
    rw [same premise]
    exact goesOn twin premise

/-- Nothing is promised of a second run whose earlier values are not like those of the first. -/
theorem unlike {first : Parse γ} {second mirror : Parse δ} (never : given → False)
    (trails : Trails detour given needs spares linked first mirror left right) :
    Trails detour given needs spares linked first second left right :=
  trails.rewrite fun premise => (never premise).elim

theorem step {value : α} {opposite : β} {middle mirror : Parser}
    (known : first left = (value, middle))
    (otherKnown : detour.Twin left right → second right = (opposite, mirror))
    (backward : middle.Clean → left.Clean)
    (steps : detour.Twin left right → detour.Steps left right middle mirror)
    (later : Trails detour given needs spares linked (next value) (other opposite) middle mirror) :
    Trails detour given needs spares linked (first >>= next) (second >>= other) left right where
  backward := by
    rw [bind_apply, known]
    exact fun final => backward (later.backward final)
  forward := by
    rw [bind_apply, known]
    intro clean spared
    obtain ⟨needed, goesOn⟩ := later.forward clean spared
    refine ⟨needed, fun twin premise => ?_⟩
    rw [bind_apply, otherKnown twin]
    have stepped := steps twin
    have ended := goesOn stepped.twin premise
    exact ⟨stepped.trans ended.steps, ended.value⟩

end Rules

section Engine

theorem ahead {next : Token → Parse γ} {other : Token → Parse δ}
    (later : Trails detour given needs spares linked (next left.ahead) (other left.ahead) left right) :
    Trails detour given needs spares linked (Parse.ahead >>= next) (Parse.ahead >>= other) left
      right := by
  have known : (Parse.ahead >>= next) left = next left.ahead left := rfl
  refine congr known (fun twin => ?_) later
  change other right.ahead right = _
  rw [twin.ahead]

theorem aheadSpan {next : Span → Parse γ} {other : Span → Parse δ}
    (later : Trails detour (given ∧ right.aheadSpan.blank = left.aheadSpan.blank) needs spares
      linked (next left.aheadSpan) (other right.aheadSpan) left right) :
    Trails detour given needs spares linked (Parse.aheadSpan >>= next) (Parse.aheadSpan >>= other)
      left right where
  backward := later.backward
  forward := by
    intro clean spared
    obtain ⟨needed, goesOn⟩ := later.forward clean spared
    exact ⟨needed, fun twin premise => goesOn twin ⟨premise, twin.blank⟩⟩

theorem isAt {next : Bool → Parse γ} {other : Bool → Parse δ}
    (found : left.ahead = token →
      Trails detour given needs spares linked (next true) (other true) left right)
    (absent : left.ahead ≠ token →
      Trails detour given needs spares linked (next false) (other false) left right) :
    Trails detour given needs spares linked (Parse.isAt token >>= next)
      (Parse.isAt token >>= other) left right := by
  have asks : Trails detour given needs spares linked (next (decide (left.ahead = token)))
      (other (decide (left.ahead = token))) left right := by
    by_cases same : left.ahead = token
    · rw [decide_eq_true same]
      exact found same
    · rw [decide_eq_false same]
      exact absent same
  have known : (Parse.isAt token >>= next) left = next (decide (left.ahead = token)) left := rfl
  refine congr known (fun twin => ?_) asks
  change other (decide (right.ahead = token)) right = _
  rw [twin.ahead]

theorem isAtEnd {next : Bool → Parse γ} {other : Bool → Parse δ}
    (later : Trails detour given needs spares linked (next left.isAtEnd) (other left.isAtEnd) left
      right) :
    Trails detour given needs spares linked (Parse.isAtEnd >>= next) (Parse.isAtEnd >>= other) left
      right := by
  have known : (Parse.isAtEnd >>= next) left = next left.isAtEnd left := rfl
  refine congr known (fun twin => ?_) later
  change other right.isAtEnd right = _
  rw [twin.isAtEnd]

theorem finish {start opposite : Span} {make : Span → γ} {mirror : Span → δ}
    (keep : ∀ span, spares (make span) left → needs)
    (starts : given → opposite.blank = start.blank)
    (same : ∀ span other, given → other.blank = span.blank → linked (make span) (mirror other)) :
    Trails detour given needs spares linked (do return make (← Parse.spanFrom start))
      (do return mirror (← Parse.spanFrom opposite)) left right where
  backward := id
  forward := fun _ spared => by
    refine ⟨keep _ spared, fun twin premise => ⟨.refl twin, ?_⟩⟩
    refine same _ _ premise (Span.blank_eq_iff.2 ?_)
    rw [spanFrom_file, spanFrom_file]
    exact Span.blank_eq_iff.1 (starts premise)

theorem consume_known {next : Unit → Parse γ} {other : Unit → Parse δ}
    (free : given → left.ahead.isFree = true)
    (later : ∀ mirror, Trails detour given needs spares linked (next ()) (other ()) left.consume
      mirror) :
    Trails detour given needs spares linked (Parse.consume >>= next) (Parse.consume >>= other) left
      right where
  backward := fun final => clean_of_consume ((later right.consume).backward final)
  forward := by
    intro clean spared
    obtain ⟨needed, goesOn⟩ := (later right.consume).forward clean spared
    refine ⟨needed, fun twin premise => ?_⟩
    obtain ⟨inner, apart⟩ := Token.isFree_iff.1 (free premise)
    have steps := twin.consume inner (Haskell.Grammar.apart_of_ahead apart)
    have ended := goesOn steps.twin premise
    exact ⟨steps.trans ended.steps, ended.value⟩

theorem consume {next : Unit → Parse γ} {other : Unit → Parse δ} (free : left.ahead.isFree = true)
    (later : ∀ mirror, Trails detour given needs spares linked (next ()) (other ()) left.consume
      mirror) :
    Trails detour given needs spares linked (Parse.consume >>= next) (Parse.consume >>= other) left
      right :=
  consume_known (fun _ => free) later

theorem take {next : Unit → Parse γ} {other : Unit → Parse δ} (found : left.ahead = token)
    (free : token.isFree = true)
    (later : ∀ left right, Trails detour given needs spares linked (next ()) (other ()) left right) :
    Trails detour given needs spares linked (Parse.consume >>= next) (Parse.consume >>= other) left
      right :=
  consume (by rwa [found]) fun mirror => later _ mirror

theorem accept_here {next : Bool → Parse γ} {other : Bool → Parse δ}
    (free : token.isFree = true)
    (taken : left.ahead = token →
      ∀ left right, Trails detour given needs spares linked (next true) (other true) left right)
    (absent : left.ahead ≠ token →
      Trails detour given needs spares linked (next false) (other false) left right) :
    Trails detour given needs spares linked (Parse.accept token >>= next)
      (Parse.accept token >>= other) left right := by
  have inner := (Token.isFree_iff.1 free).1
  by_cases found : left.ahead = token
  · have consumes : Trails detour given needs spares linked
        (Parse.consume >>= fun _ => next true) (Parse.consume >>= fun _ => other true) left right :=
      take found free (taken found)
    refine congr ?_ (fun twin => ?_) consumes
    · rw [bind_apply, accept_apply inner, if_pos found]
      rfl
    · rw [bind_apply, accept_apply inner, if_pos (twin.ahead.trans found)]
      rfl
  · refine congr ?_ (fun twin => ?_) (absent found)
    · rw [bind_apply, accept_apply inner, if_neg found]
    · rw [bind_apply, accept_apply inner, if_neg (by rwa [twin.ahead])]

theorem accept_either {next : Bool → Parse γ} {other : Bool → Parse δ}
    (free : token.isFree = true)
    (later : ∀ found left right, Trails detour given needs spares linked (next found) (other found)
      left right) :
    Trails detour given needs spares linked (Parse.accept token >>= next)
      (Parse.accept token >>= other) left right :=
  accept_here free (fun _ => later true) fun _ => later false left right

theorem accept {next : Bool → Parse γ} {other : Bool → Parse δ}
    (free : token.isFree = true)
    (taken : ∀ left right, Trails detour given needs spares linked (next true) (other true) left
      right)
    (absent : left.ahead ≠ token →
      Trails detour given needs spares linked (next false) (other false) left right) :
    Trails detour given needs spares linked (Parse.accept token >>= next)
      (Parse.accept token >>= other) left right :=
  accept_here free (fun _ => taken) absent

/-- A token that is due is next and consumed, or something went wrong. -/
theorem due {production : Parse Bool} {next : Bool → Parse γ}
    {other : Bool → Parse δ} (repair : Parser → Parser)
    (applied : ∀ parser, production parser =
      if parser.ahead = token then (true, parser.consume) else (false, repair parser.fail))
    (repairs : ∀ parser, Leads (fun _ => True) parser (repair parser)) (free : token.isFree = true)
    (later : ∀ found left right, Trails detour given needs spares linked (next found) (other found)
      left right) :
    Trails detour given (needs ∧ left.ahead = token) spares linked (production >>= next)
      (production >>= other) left right := by
  by_cases found : left.ahead = token
  · have consumes : Trails detour given needs spares linked
        (Parse.consume >>= fun _ => next true) (Parse.consume >>= fun _ => other true) left right :=
      take found free (later true)
    refine (congr ?_ (fun twin => ?_) consumes).needing fun needed => ⟨needed, found⟩
    · rw [bind_apply, applied, if_pos found]
      rfl
    · rw [bind_apply, applied, if_pos (twin.ahead.trans found)]
      rfl
  · refine spoil ?_ fun value after => (later value after right).backward
    rw [applied, if_neg found]
    exact fun clean => fail_spoils left ((repairs _).clean clean)

theorem expect {next : Bool → Parse γ} {other : Bool → Parse δ}
    (free : token.isFree = true)
    (later : ∀ found left right, Trails detour given needs spares linked (next found) (other found)
      left right) :
    Trails detour given needs spares linked (Parse.expect token >>= next)
      (Parse.expect token >>= other) left right :=
  (due id (expect_apply (Token.isFree_iff.1 free).1) Leads.refl free later).needing And.left

theorem expectOrSkipTo_there {next : Bool → Parse γ} {other : Bool → Parse δ}
    (free : token.isFree = true)
    (later : ∀ found left right, Trails detour given needs spares linked (next found) (other found)
      left right) :
    Trails detour given (needs ∧ left.ahead = token) spares linked
      (Parse.expectOrSkipTo token >>= next) (Parse.expectOrSkipTo token >>= other) left right :=
  have inner := (Token.isFree_iff.1 free).1
  due (fun parser => (Parse.accept token (parser.skipTo token)).2)
    (expectOrSkipTo_apply inner)
    (fun parser => (Leads.skipTo token parser).trans (Leads.accept inner _)) free later

theorem expectOrSkipTo {next : Bool → Parse γ} {other : Bool → Parse δ}
    (free : token.isFree = true)
    (later : ∀ found left right, Trails detour given needs spares linked (next found) (other found)
      left right) :
    Trails detour given needs spares linked (Parse.expectOrSkipTo token >>= next)
      (Parse.expectOrSkipTo token >>= other) left right :=
  (expectOrSkipTo_there free later).needing And.left

/-- After something went wrong it only matters that nothing makes up for it. -/
theorem fail {next : Unit → Parse γ} {second : Parse δ}
    (backward : ∀ after, (next () after).2.Clean → after.Clean) :
    Trails detour given needs spares linked (Parse.fail >>= next) second left right :=
  spoil (fail_spoils left) fun _ => backward

theorem reportUnexpected {next : Unit → Parse γ} {second : Parse δ}
    (backward : ∀ after, (next () after).2.Clean → after.Clean) :
    Trails detour given needs spares linked (Parse.reportUnexpected >>= next) second left right :=
  spoil (reportUnexpected_spoils left) fun _ => backward

/-- Spans of one file are joined, and those of two files are a fault. -/
theorem join {start last start' last' : Span} {next : Span → Parse γ} {other : Span → Parse δ}
    (starts : given → start'.blank = start.blank) (lasts : given → last'.blank = last.blank)
    (later : ∀ span opposite, Trails detour (given ∧ opposite.blank = span.blank) needs spares linked
      (next span) (other opposite) left right)
    (backward : ∀ span after, (next span after).2.Clean → after.Clean) :
    Trails detour given needs spares linked (Parse.join start last >>= next)
      (Parse.join start' last' >>= other) left right := by
  have known : ∀ (start last : Span) (parser : Parser), Parse.join start last parser =
      if start.file = last.file then (start.through last, parser)
      else (default, parser.raise (.filesDiffer start.file last.file)) := by
    intro start last parser
    unfold Parse.join Span.join
    split <;> rfl
  by_cases same : start.file = last.file
  · have joined := later (start.through last) (start'.through last')
    have applied : (Parse.join start last >>= next) left = next (start.through last) left := by
      rw [bind_apply, known, if_pos same]
    constructor
    · rw [applied]
      exact joined.backward
    · rw [applied]
      intro clean spared
      obtain ⟨needed, goesOn⟩ := joined.forward clean spared
      refine ⟨needed, fun twin premise => ?_⟩
      have same' : start'.file = last'.file := by
        rw [Span.blank_eq_iff.1 (starts premise), Span.blank_eq_iff.1 (lasts premise), same]
      rw [bind_apply, known, if_pos same']
      exact goesOn twin ⟨premise, by simpa using starts premise⟩
  · refine spoil ?_ backward
    rw [known, if_neg same]
    exact raise_spoils left _

end Engine

end Trails

end Parse

end Offside
