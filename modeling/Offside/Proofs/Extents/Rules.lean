import Offside.Proofs.Extents.Nodes
import Offside.Proofs.Spans.Rules

/-!
What productions take from a text. A production that ends in a clean state has taken tokens, and what
its value is made of can be told from them together with the tokens that were taken since an origin.
What is known of those is a property of token lists, and a production that follows another adds its
tokens behind. The rules follow the shape of a production as those for what it reads do.
-/

namespace Offside

set_option autoImplicit false

open Offside.Lexical

namespace Tokens

def Then (first later : Tokens → Prop) (tokens : Tokens) : Prop :=
  ∃ before after, tokens = before ++ after ∧ first before ∧ later after

def Opens (tokens : Tokens) : Prop :=
  ∃ first later, tokens = first :: later ∧ first.2.isPoint = false

theorem Opens.append {first : Tokens} (opens : first.Opens) (later : Tokens) :
    Opens (first ++ later) := by
  obtain ⟨found, others, rfl, isWide⟩ := opens
  exact ⟨found, others ++ later, rfl, isWide⟩

theorem Opens.start {tokens later : Tokens} {found : Token × Span} (split : tokens = found :: later)
    (isWide : found.2.isPoint = false) : tokens.start? = some found.2.start := by
  rw [split, start?, wide, List.filter_cons_of_pos (by simp [isWide])]
  rfl

theorem wide_cons {found : Token × Span} (isWide : found.2.isPoint = false) (later : Tokens) :
    wide (found :: later) = found :: wide later := by
  simp [wide, isWide]

end Tokens

namespace Parser

variable {text passed : Tokens} {before after parser : Parser}

/-- A parser stands in orderly tokens, of which a text has no more behind. -/
structure Stands (text : Tokens) (parser : Parser) : Prop where
  tidy : ∃ file, parser.Tidy file
  rest : parser.rest <:+ text
  ready : ∃ further, parser.Ready (fun _ => True) further

theorem Run.stands (run : Run (fun _ => True) before passed after)
    (stands : before.Stands text) : after.Stands text := by
  obtain ⟨file, tidy⟩ := stands.tidy
  obtain ⟨further, ready⟩ := stands.ready
  refine ⟨⟨file, ((Passes.of_run run).tidy tidy).1⟩, List.IsSuffix.trans ?_ stands.rest, ?_⟩
  · exact ⟨passed, run.effect.rest.symm⟩
  · exact ⟨further, Leads.ready ⟨passed, run⟩ ready⟩

theorem Run.slice {files : FileId → Prop} (run : Run files before passed after)
    (stands : before.Stands text) : passed <:+: text := by
  have front : passed <+: before.rest := ⟨after.rest, run.effect.rest.symm⟩
  exact front.isInfix.trans stands.rest.isInfix

theorem Run.head {files : FileId → Prop} {found : Token × Span}
    (run : Run files before (found :: passed) after) :
    found = (before.ahead, before.aheadSpan) := by
  have rest := run.effect.rest
  have inner : before.isAtEnd = false := by
    rw [Bool.eq_false_iff]
    intro ended
    rw [(rest_eq_nil_iff before).2 ended] at rest
    cases rest
  rw [rest_of_inner inner, List.cons_append, List.cons.injEq] at rest
  exact rest.1.symm

/-- The last token with a width is the one that a parser remembers. -/
theorem Run.previous {files : FileId → Prop} (run : Run files before passed after) :
    after.previous = (passed.wide.getLast?.map Prod.snd).getD before.previous := by
  induction run with
  | refl parser => rfl
  | @trans _ _ _ passed later _ _ first second =>
    rw [second, first, Tokens.wide_append, List.getLast?_append]
    cases (Tokens.wide later).getLast? with
    | none => rfl
    | some found => rfl
  | @consume parser _ =>
    rw [previous_consume]
    cases point : parser.aheadSpan.isPoint with
    | true => simp [Tokens.wide, point]
    | false => simp [Tokens.wide, point]
  | fill _ => rfl
  | report parser =>
    rcases reportUnexpected_cases parser with same | reported
    · rw [same]
      rfl
    · rw [reported]
      rfl
  | @consumeReporting parser _ =>
    change parser.consume.previous = _
    rw [previous_consume]
    cases point : parser.aheadSpan.isPoint with
    | true => simp [Tokens.wide, point]
    | false => simp [Tokens.wide, point]
  | refuse _ => rfl
  | @nested parser final passed _ _ inside =>
    have kept : final.leaveNesting.previous = final.previous := by
      unfold leaveNesting
      split
      · rfl
      · rfl
    rw [kept, inside]
  | raise _ _ _ => rfl

theorem Run.start? {files : FileId → Prop} {own rest : Tokens}
    (run : Run files before (own ++ rest) after) (opens : own.Opens) :
    own.start? = some before.aheadSpan.start := by
  obtain ⟨found, later, rfl, isWide⟩ := opens
  rw [Tokens.Opens.start rfl isWide]
  rw [List.cons_append] at run
  rw [run.head]

/-- From a span that was the lookahead to here all that was taken since is reached. -/
theorem Run.spanFrom {files : FileId → Prop} (run : Run files before passed after)
    (stands : before.Stands text) (opens : passed.Opens) :
    (after.spanFrom before.aheadSpan).Reaches passed := by
  obtain ⟨file, tidy⟩ := stands.tidy
  obtain ⟨found, later, rfl, isWide⟩ := opens
  have covered := (Passes.of_run run).covered tidy found List.mem_cons_self isWide
  have remembered := run.previous
  rw [run.head] at isWide covered remembered ⊢
  have whole : after.spanFrom before.aheadSpan = before.aheadSpan.through after.previous :=
    if_pos ⟨covered.1.trans tidy.file_ahead.symm, covered.2⟩
  rw [whole]
  rw [Tokens.wide_cons isWide] at remembered
  refine ⟨Tokens.Opens.start rfl isWide, ?_⟩
  rw [List.getLast?_eq_some_getLast (List.cons_ne_nil _ _)] at remembered
  rw [Tokens.stop?, Tokens.wide_cons isWide, List.getLast?_eq_some_getLast (List.cons_ne_nil _ _),
    remembered]
  rfl

end Parser

theorem Parser.Stands.wide {text : Tokens} {parser : Parser} (stands : parser.Stands text)
    (firm : Haskell.isFirm parser.ahead = true) : parser.aheadSpan.isPoint = false := by
  obtain ⟨file, tidy⟩ := stands.tidy
  exact tidy.wide firm

namespace Parse

open Offside.Haskell Offside.Parser

variable {α β γ : Type} {text : Tokens}

/-- A production is run after tokens of a kind were taken since an origin. If it ends clean it has
taken further ones, and all of them together are of the kind that its value asks for. -/
def TakesFrom (text : Tokens) (origin : Parser) (taken : Tokens → Prop) (production : Parse α)
    (made : α → Tokens → Prop) (parser : Parser) : Prop :=
  ((production parser).2.Clean → parser.Clean) ∧
    ∀ tokens, taken tokens → origin.Stands text → Run (fun _ => True) origin tokens parser →
      (production parser).2.Clean → ∃ passed,
        Run (fun _ => True) parser passed (production parser).2 ∧
          made (production parser).1 (tokens ++ passed)

abbrev Takes (text : Tokens) (production : Parse α) (made : α → Tokens → Prop)
    (parser : Parser) : Prop :=
  TakesFrom text parser (· = []) production made parser

section Rules

variable {origin parser : Parser} {taken others : Tokens → Prop} {made : β → Tokens → Prop}
  {token : Token} {production : Parse α}

@[simp] theorem takes_ahead {next : Token → Parse β} :
    TakesFrom text origin taken (ahead >>= next) made parser ↔
      TakesFrom text origin taken (next parser.ahead) made parser :=
  Iff.rfl

@[simp] theorem takes_aheadSpan {next : Span → Parse β} :
    TakesFrom text origin taken (aheadSpan >>= next) made parser ↔
      TakesFrom text origin taken (next parser.aheadSpan) made parser :=
  Iff.rfl

@[simp] theorem takes_isAt {next : Bool → Parse β} :
    TakesFrom text origin taken (isAt token >>= next) made parser ↔
      TakesFrom text origin taken (next (decide (parser.ahead = token))) made parser :=
  Iff.rfl

@[simp] theorem takes_spanFrom {start : Span} {next : Span → Parse β} :
    TakesFrom text origin taken (spanFrom start >>= next) made parser ↔
      TakesFrom text origin taken (next (parser.spanFrom start)) made parser :=
  Iff.rfl

@[simp] theorem takes_pure_bind {value : α} {next : α → Parse β} :
    TakesFrom text origin taken (Pure.pure value >>= next) made parser ↔
      TakesFrom text origin taken (next value) made parser :=
  Iff.rfl

@[simp] theorem takes_bind_assoc {first : Parse α} {second : α → Parse γ} {third : γ → Parse β} :
    TakesFrom text origin taken ((first >>= second) >>= third) made parser ↔
      TakesFrom text origin taken (first >>= fun value => second value >>= third) made parser :=
  Iff.rfl

@[simp] theorem takes_map {change : α → β} :
    TakesFrom text origin taken (change <$> production) made parser ↔
      TakesFrom text origin taken production (fun value => made (change value)) parser :=
  Iff.rfl

theorem TakesFrom.pure {value : β} (makes : ∀ tokens, taken tokens → made value tokens) :
    TakesFrom text origin taken (Pure.pure value) made parser := by
  refine ⟨id, fun tokens known _ _ _ => ⟨[], .refl parser, ?_⟩⟩
  rw [List.append_nil]
  exact makes tokens known

/-- What else is known of the tokens that were taken, by the run that took them. -/
theorem TakesFrom.see {production : Parse β}
    (seen : ∀ tokens, taken tokens → origin.Stands text →
      Run (fun _ => True) origin tokens parser → others tokens)
    (takes : TakesFrom text origin others production made parser) :
    TakesFrom text origin taken production made parser :=
  ⟨takes.1, fun tokens known stands run => takes.2 tokens (seen tokens known stands run) stands run⟩

theorem TakesFrom.pure_seen {value : β}
    (makes : ∀ tokens, taken tokens → origin.Stands text →
      Run (fun _ => True) origin tokens parser → made value tokens) :
    TakesFrom text origin taken (Pure.pure value) made parser :=
  .see makes (.pure fun _ held => held)

theorem TakesFrom.weaken {production : Parse β} (less : ∀ tokens, taken tokens → others tokens)
    (takes : TakesFrom text origin others production made parser) :
    TakesFrom text origin taken production made parser :=
  takes.see fun tokens known _ _ => less tokens known

theorem TakesFrom.mono {production : Parse β} {stronger : β → Tokens → Prop}
    (takes : TakesFrom text origin taken production stronger parser)
    (weaken : ∀ value tokens, stronger value tokens → made value tokens) :
    TakesFrom text origin taken production made parser := by
  refine ⟨takes.1, fun tokens known stands run clean => ?_⟩
  obtain ⟨passed, further, held⟩ := takes.2 tokens known stands run clean
  exact ⟨passed, further, weaken _ _ held⟩

/-- Productions that do the same from a state take the same from it. -/
theorem TakesFrom.congr {production other : Parse β} (same : production parser = other parser)
    (takes : TakesFrom text origin taken other made parser) :
    TakesFrom text origin taken production made parser := by
  unfold TakesFrom
  rw [same]
  exact takes

/-- A production goes on with all that was taken, and is followed by another that knows how it ended. -/
theorem TakesFrom.chain_known {next : α → Parse β}
    {part : α → Tokens → Prop} (first : TakesFrom text origin taken production part parser)
    (holds : α → Parser → Prop) (known : holds (production parser).1 (production parser).2)
    (later : ∀ value after, holds value after →
      TakesFrom text origin (part value) (next value) made after) :
    TakesFrom text origin taken (production >>= next) made parser := by
  have second := later _ _ known
  refine ⟨fun clean => first.1 (second.1 clean), fun tokens held stands run clean => ?_⟩
  obtain ⟨passed, further, part⟩ := first.2 tokens held stands run (second.1 clean)
  obtain ⟨others, last, whole⟩ := second.2 _ part stands (run.trans further) clean
  refine ⟨passed ++ others, further.trans last, ?_⟩
  rw [← List.append_assoc]
  exact whole

/-- A production goes on with all that was taken, and is followed by another. -/
theorem TakesFrom.chain {next : α → Parse β} {part : α → Tokens → Prop}
    (first : TakesFrom text origin taken production part parser)
    (later : ∀ value after, TakesFrom text origin (part value) (next value) made after) :
    TakesFrom text origin taken (production >>= next) made parser :=
  first.chain_known (fun _ _ => True) trivial fun value after _ => later value after

/-- Only what is taken from a clean state matters. -/
theorem TakesFrom.of_clean {production : Parse β}
    (backward : (production parser).2.Clean → parser.Clean)
    (takes : parser.Clean → TakesFrom text origin taken production made parser) :
    TakesFrom text origin taken production made parser :=
  ⟨backward, fun tokens known stands run clean =>
    (takes (backward clean)).2 tokens known stands run clean⟩

theorem TakesFrom.append {production : Parse β} (takes : Takes text production made parser) :
    TakesFrom text origin taken production (fun value => Tokens.Then taken (made value)) parser := by
  refine ⟨takes.1, fun tokens known stands run clean => ?_⟩
  obtain ⟨passed, further, held⟩ := takes.2 [] rfl (run.stands stands) (.refl parser) clean
  exact ⟨passed, further, tokens, passed, rfl, known, held⟩

theorem TakesFrom.bind {next : α → Parse β} {part : α → Tokens → Prop}
    (first : Takes text production part parser)
    (later : ∀ value after,
      TakesFrom text origin (Tokens.Then taken (part value)) (next value) made after) :
    TakesFrom text origin taken (production >>= next) made parser :=
  .chain (.append first) later

/-- A production that starts here is followed by another that knows how it ended. -/
theorem TakesFrom.bind_known {next : α → Parse β}
    {part : α → Tokens → Prop} (first : Takes text production part parser)
    (holds : α → Parser → Prop) (known : holds (production parser).1 (production parser).2)
    (later : ∀ value after, holds value after →
      TakesFrom text origin (Tokens.Then taken (part value)) (next value) made after) :
    TakesFrom text origin taken (production >>= next) made parser :=
  .chain_known (.append first) holds known later

/-- A step that changes the state in a known way takes the tokens it passes. -/
theorem TakesFrom.step {next : α → Parse β} {value : α} {after : Parser} {passed : Tokens}
    (known : production parser = (value, after)) (run : Run (fun _ => True) parser passed after)
    (later : TakesFrom text origin (Tokens.Then taken (· = passed)) (next value) made after) :
    TakesFrom text origin taken (production >>= next) made parser := by
  have same : (production >>= next) parser = next value after := by
    rw [bind_apply, known]
  refine ⟨fun clean => run.clean (later.1 (by rwa [same] at clean)), ?_⟩
  intro tokens held stands before clean
  rw [same] at clean ⊢
  obtain ⟨others, last, whole⟩ :=
    later.2 _ ⟨tokens, passed, rfl, held, rfl⟩ stands (before.trans run) clean
  refine ⟨passed ++ others, run.trans last, ?_⟩
  rw [← List.append_assoc]
  exact whole

/-- A step that passes nothing. -/
theorem TakesFrom.still {next : α → Parse β} {value : α} {after : Parser}
    (known : production parser = (value, after)) (run : Run (fun _ => True) parser [] after)
    (later : TakesFrom text origin taken (next value) made after) :
    TakesFrom text origin taken (production >>= next) made parser := by
  refine .step known run (later.weaken ?_)
  rintro _ ⟨tokens, _, rfl, held, rfl⟩
  rwa [List.append_nil]

/-- Nothing is asked of a run that ends unclean. -/
theorem TakesFrom.of_unclean {production : Parse β} (unclean : ¬(production parser).2.Clean) :
    TakesFrom text origin taken production made parser :=
  ⟨fun clean => absurd clean unclean, fun _ _ _ _ clean => absurd clean unclean⟩

/-- Where the state was spoiled it only matters that what is left to do does not clean it. -/
theorem TakesFrom.spoil {next : α → Parse β} {value : α} {after : Parser}
    (known : production parser = (value, after)) (unclean : ¬after.Clean)
    (backward : (next value after).2.Clean → after.Clean) :
    TakesFrom text origin taken (production >>= next) made parser := by
  apply TakesFrom.of_unclean
  rw [bind_apply, known]
  exact fun clean => unclean (backward clean)

theorem TakesFrom.consume {next : Unit → Parse β} (inner : parser.isAtEnd = false)
    (later : TakesFrom text origin (Tokens.Then taken (· = [(parser.ahead, parser.aheadSpan)]))
      (next ()) made parser.consume) :
    TakesFrom text origin taken (Parse.consume >>= next) made parser :=
  .step rfl (Run.consume inner) later

theorem TakesFrom.take {next : Unit → Parse β} (firm : isFirm parser.ahead = true)
    (later : TakesFrom text origin
      (Tokens.Then taken fun tokens => tokens = [(parser.ahead, parser.aheadSpan)] ∧
        parser.aheadSpan.isPoint = false)
      (next ()) made parser.consume) :
    TakesFrom text origin taken (Parse.consume >>= next) made parser := by
  have seen : ∀ tokens, taken tokens → origin.Stands text →
      Run (fun _ => True) origin tokens parser →
        taken tokens ∧ parser.aheadSpan.isPoint = false :=
    fun tokens known stands run => ⟨known, (run.stands stands).wide firm⟩
  refine .see seen (.consume (isAtEnd_of_ahead (inner_of_firm firm) rfl) (later.weaken ?_))
  rintro _ ⟨before, _, rfl, ⟨known, isWide⟩, rfl⟩
  exact ⟨before, _, rfl, known, rfl, isWide⟩

theorem TakesFrom.accept {next : Bool → Parse β} (inner : token ≠ .endOfInput)
    (found : parser.ahead = token →
      TakesFrom text origin (Tokens.Then taken (· = [(token, parser.aheadSpan)])) (next true) made
        parser.consume)
    (absent : parser.ahead ≠ token → TakesFrom text origin taken (next false) made parser) :
    TakesFrom text origin taken (Parse.accept token >>= next) made parser := by
  have known := accept_apply inner parser
  by_cases same : parser.ahead = token
  · rw [if_pos same] at known
    have run : Run (fun _ => True) parser [(parser.ahead, parser.aheadSpan)] parser.consume :=
      Run.consume (isAtEnd_of_ahead inner same)
    rw [same] at run
    exact .step known run (found same)
  · rw [if_neg same] at known
    exact .still known (Run.refl parser) (absent same)

theorem TakesFrom.expect {next : Bool → Parse β} (inner : token ≠ .endOfInput)
    (later : ∀ found after, TakesFrom text origin
      (Tokens.Then taken (· = [(token, parser.aheadSpan)])) (next found) made after) :
    TakesFrom text origin taken (Parse.expect token >>= next) made parser := by
  have known := expect_apply inner parser
  by_cases same : parser.ahead = token
  · rw [if_pos same] at known
    have run : Run (fun _ => True) parser [(parser.ahead, parser.aheadSpan)] parser.consume :=
      Run.consume (isAtEnd_of_ahead inner same)
    rw [same] at run
    exact .step known run (later true _)
  · rw [if_neg same] at known
    exact .spoil known (fail_spoils parser) (later false _).1

theorem TakesFrom.expectOrSkipTo {next : Bool → Parse β}
    (inner : token ≠ .endOfInput)
    (later : ∀ found after, TakesFrom text origin
      (Tokens.Then taken (· = [(token, parser.aheadSpan)])) (next found) made after) :
    TakesFrom text origin taken (Parse.expectOrSkipTo token >>= next) made parser := by
  have known := expectOrSkipTo_apply inner parser
  by_cases same : parser.ahead = token
  · rw [if_pos same] at known
    have run : Run (fun _ => True) parser [(parser.ahead, parser.aheadSpan)] parser.consume :=
      Run.consume (isAtEnd_of_ahead inner same)
    rw [same] at run
    exact .step known run (later true _)
  · rw [if_neg same] at known
    have skips : Leads (fun _ => True) parser.fail
        (Parse.accept token (parser.fail.skipTo token)).2 :=
      (Leads.skipTo token parser.fail).trans (Leads.accept inner _)
    exact .spoil known (fun clean => fail_spoils parser (skips.clean clean)) (later false _).1

theorem TakesFrom.skipAll {next : Unit → Parse β}
    (later : TakesFrom text origin (Tokens.Then taken fun _ => True) (next ()) made
      (parser.skipAll token)) :
    TakesFrom text origin taken (Parse.skipAll token >>= next) made parser := by
  obtain ⟨passed, -, run⟩ := Run.skipAll token parser
  refine .step rfl run (later.weaken ?_)
  rintro _ ⟨before, after, rfl, held, -⟩
  exact ⟨before, after, rfl, held, trivial⟩

theorem TakesFrom.peek {distance : Nat} {next : Token → Parse β} (near : 1 ≤ distance)
    (within : distance ≤ reach)
    (later : ∀ token after, Alike parser after → (distance = 1 → token = parser.consume.ahead) →
      TakesFrom text origin taken (next token) made after) :
    TakesFrom text origin taken (Parse.peek distance >>= next) made parser := by
  have known : Parse.peek distance parser =
      ((parser.peek distance).1.1, (parser.peek distance).2) := rfl
  apply TakesFrom.still known (Run.peek near within parser)
  apply later _ _ (Alike.peek near within parser)
  rintro rfl
  exact peek_one parser

theorem TakesFrom.peekSpan {distance : Nat} {next : Span → Parse β} (near : 1 ≤ distance)
    (within : distance ≤ reach)
    (later : ∀ span after, Alike parser after →
      TakesFrom text origin taken (next span) made after) :
    TakesFrom text origin taken (Parse.peekSpan distance >>= next) made parser := by
  have known : Parse.peekSpan distance parser =
      ((parser.peek distance).1.2, (parser.peek distance).2) := rfl
  exact .still known (Run.peek near within parser) (later _ _ (Alike.peek near within parser))

theorem TakesFrom.fail {next : Unit → Parse β}
    (backward : (next () parser.fail).2.Clean → parser.fail.Clean) :
    TakesFrom text origin taken (Parse.fail >>= next) made parser :=
  .spoil rfl (fail_spoils parser) backward

theorem TakesFrom.reportUnexpected {next : Unit → Parse β}
    (backward : (next () parser.reportUnexpected).2.Clean → parser.reportUnexpected.Clean) :
    TakesFrom text origin taken (Parse.reportUnexpected >>= next) made parser :=
  .spoil rfl (reportUnexpected_spoils parser) backward

theorem TakesFrom.join {first last : Span} {next : Span → Parse β}
    (joined : TakesFrom text origin taken (next (first.through last)) made parser)
    (spoiled : ∀ span after, (next span after).2.Clean → after.Clean) :
    TakesFrom text origin taken (Parse.join first last >>= next) made parser := by
  rcases join_cases first last parser with known | ⟨after, known, -, unclean⟩
  · exact .still known (Run.refl parser) joined
  · exact .spoil known unclean (spoiled default after)

end Rules

section Repetition

variable {parser : Parser} {each : α → Tokens → Prop} {closes : β → Tokens → Prop}
  {stops : Tokens → Prop}

/-- Tokens that the values of a repetition were made of, one list after the other, and those that it
ended with. -/
def Rounds (each : α → Tokens → Prop) (closes : β → Tokens → Prop) (stops : Tokens → Prop)
    (found : List α × Option β) (tokens : Tokens) : Prop :=
  ∃ rounds final, tokens = rounds.flatten ++ final ∧ List.Forall₂ each found.1 rounds ∧
    found.2.elim stops closes final

def round (each : α → Tokens → Prop) (closes : β → Tokens → Prop) (stops : Tokens → Prop)
    (found : Option (α ⊕ β)) : Tokens → Prop :=
  found.elim stops (Sum.elim each closes)

theorem repeatBelow_takes {more : Parse Bool} {item : Parse (α ⊕ β)}
    (rounds : ∀ start, Takes text (oneRound more item) (round each closes stops) start)
    (bound : Nat) (parser : Parser) :
    Takes text (repeatBelow more item bound) (Rounds each closes stops) parser := by
  induction bound using Nat.strong_induction_on generalizing parser with
  | _ bound induction =>
    apply TakesFrom.congr (repeatBelow_eq more item bound parser)
    apply TakesFrom.chain (rounds parser)
    intro found after
    match found with
    | none => exact .pure fun tokens stopped => ⟨[], tokens, rfl, .nil, stopped⟩
    | some (.inr last) => exact .pure fun tokens held => ⟨[], tokens, rfl, .nil, held⟩
    | some (.inl value) =>
      by_cases progress : after.remaining < bound
      · let below : Parse (List α × Option β) := repeatBelow more item after.remaining
        have goesOn : afterRound more item bound (some (.inl value)) after =
            ((fun found => (value :: found.1, found.2)) <$> below) after := if_pos progress
        apply TakesFrom.congr goesOn
        apply takes_map.2
        refine (TakesFrom.append (induction _ progress after)).mono ?_
        rintro ⟨values, last⟩ _ ⟨first, _, rfl, held, rounds, final, rfl, all, ending⟩
        exact ⟨first :: rounds, final, by simp, .cons held all, ending⟩
      · have stalls : afterRound more item bound (some (.inl value)) after =
            (([value], none), after.raise .stalled) := if_neg progress
        apply TakesFrom.of_unclean
        rw [stalls]
        exact raise_spoils after _

theorem repeatUntil_takes {more : Parse Bool} {item : Parse (α ⊕ β)}
    (rounds : ∀ start, Takes text (oneRound more item) (round each closes stops) start)
    (parser : Parser) : Takes text (repeatUntil more item) (Rounds each closes stops) parser :=
  repeatBelow_takes rounds parser.remaining parser

/-- Items one after the other, and what is found where there is no other. -/
def Series (each : α → Tokens → Prop) (stops : Tokens → Prop) (values : List α) (tokens : Tokens) :
    Prop :=
  ∃ rounds final, tokens = rounds.flatten ++ final ∧ List.Forall₂ each values rounds ∧ stops final

theorem many_takes {more : Parse Bool} {item : Parse α}
    (rounds : ∀ start, Takes text (oneRound more item) (fun found => found.elim stops each) start)
    (parser : Parser) : Takes text (many more item) (Series each stops) parser := by
  have all : ∀ start, Takes text (oneRound more (Sum.inl <$> item : Parse (α ⊕ Empty)))
      (round each (fun _ _ => False) stops) start := by
    intro start
    apply TakesFrom.congr (oneRound_map more item Sum.inl start)
    apply takes_map.2
    refine (rounds start).mono fun found tokens held => ?_
    cases found with
    | none => exact held
    | some value => exact held
  unfold many
  apply TakesFrom.chain (repeatUntil_takes all parser)
  rintro ⟨values, last⟩ after
  refine .pure ?_
  rintro tokens ⟨rounds, final, split, row, ending⟩
  cases last with
  | none => exact ⟨rounds, final, split, row, ending⟩
  | some last => exact last.elim

/-- Items one after the other and nothing behind. -/
theorem Series.flatten {values : List α} {tokens : Tokens} (row : Series each (· = []) values tokens) :
    ∃ rounds, tokens = rounds.flatten ∧ List.Forall₂ each values rounds := by
  obtain ⟨rounds, _, rfl, all, rfl⟩ := row
  exact ⟨rounds, by rw [List.append_nil], all⟩

/-- Items that are read as long as the lookahead is of a kind. -/
theorem many_while_takes {isKind : Token → Bool} {item : Parse α}
    (items : ∀ start, Takes text item each start) (parser : Parser) :
    Takes text (many (do return isKind (← Parse.ahead)) item) (Series each (· = [])) parser := by
  apply many_takes
  intro start
  unfold oneRound
  simp only [takes_bind_assoc, takes_ahead, takes_pure_bind]
  split
  · apply TakesFrom.chain (items start)
    intro value after
    exact .pure fun tokens held => held
  · exact .pure fun tokens none => none

theorem many_accept_takes {separator : Token} {item : Parse α} (inner : separator ≠ .endOfInput)
    (items : ∀ start, Takes text item each start) (parser : Parser) :
    Takes text (many (accept separator) item)
      (Series (fun value tokens => ∃ found later, tokens = found :: later ∧ found.1 = separator ∧
        each value later) (· = [])) parser := by
  apply many_takes
  intro start
  unfold oneRound
  apply TakesFrom.accept inner
  · intro _
    apply TakesFrom.bind (items start.consume)
    intro value after
    refine .pure ?_
    rintro _ ⟨_, later, rfl, ⟨_, _, rfl, rfl, rfl⟩, held⟩
    exact ⟨_, later, rfl, rfl, held⟩
  · intro _
    exact .pure fun tokens none => none

theorem refuse_takes {refused : Span → α} {made : α → Tokens → Prop} (parser : Parser) :
    Takes text (refuse refused) made parser :=
  .of_unclean (refuseNesting_spoils parser)

/-- Neither the depth nor a level that was entered makes a difference to what is taken. -/
theorem nested_takes {refused : Span → α} {production : Parse α} {made : α → Tokens → Prop}
    (inside : Takes text production made { parser with depth := parser.depth + 1 }) :
    Takes text (nested refused production) made parser := by
  by_cases room : parser.depth < nestingLimit
  · have enters : enterNesting parser = (none, { parser with depth := parser.depth + 1 }) := by
      change parser.enterNesting = _
      rw [Parser.enterNesting, if_pos room]
    have whole : nested refused production parser =
        ((production { parser with depth := parser.depth + 1 }).1,
          (production { parser with depth := parser.depth + 1 }).2.leaveNesting) := by
      rw [nested, bind_apply, enters]
      rfl
    unfold Takes TakesFrom
    rw [whole]
    refine ⟨fun clean => { inside.1 (clean_of_leaveNesting clean) with }, ?_⟩
    rintro _ rfl stands - clean
    obtain ⟨file, tidy⟩ := stands.tidy
    obtain ⟨further, ready⟩ := stands.ready
    have deeper : ({ parser with depth := parser.depth + 1 } : Parser).Stands text :=
      ⟨⟨file, tidy.of_same rfl rfl⟩, stands.rest, further - 1,
        { ready with room := by have := ready.room; dsimp only; omega }⟩
    obtain ⟨passed, run, held⟩ := inside.2 [] rfl deeper (.refl _) (clean_of_leaveNesting clean)
    exact ⟨passed, .nested room run, held⟩
  · have refuses : enterNesting parser =
        (some parser.refuseNesting.1, parser.refuseNesting.2) := by
      change parser.enterNesting = _
      rw [Parser.enterNesting, if_neg room]
    apply TakesFrom.of_unclean
    rw [nested, bind_apply, refuses]
    exact refuseNesting_spoils parser

end Repetition

end Parse

structure Held (text : Tokens) (nodes : List Node) : Prop where
  nodes : ∀ node ∈ nodes, node.Every (Node.Exact text)

namespace Held

variable {text : Tokens} {nodes first later : List Node}

theorem nil : Held text [] := ⟨fun _ member => nomatch member⟩

theorem append (front : Held text first) (back : Held text later) : Held text (first ++ later) :=
  ⟨List.forall_mem_append.2 ⟨front.nodes, back.nodes⟩⟩

theorem subset (held : Held text nodes) (inside : later ⊆ nodes) : Held text later :=
  ⟨fun node member => held.nodes node (inside member)⟩

end Held

namespace Parse

open Offside.Haskell Offside.Parser

variable {α β : Type} {text : Tokens}

abbrev Gathers (text : Tokens) (production : Parse α) (nodes : α → List Node)
    (parser : Parser) : Prop :=
  Takes text production (fun value _ => Held text (nodes value)) parser

/-- A production of which it only matters that it takes tokens. -/
abbrev Quiet (text : Tokens) (production : Parse α) (parser : Parser) : Prop :=
  Takes text production (fun _ _ => True) parser

/-- What is known where nodes are owed: they stand where they should, and where a first token was taken
it has a width. -/
structure Gathered (text : Tokens) (begun : Bool) (owed : List Node) (tokens : Tokens) : Prop where
  opens : begun = true → tokens.Opens
  held : Held text owed

namespace TakesFrom

variable {origin parser : Parser} {begun : Bool} {owed : List Node} {made : β → Tokens → Prop}

theorem forgetWith {production : Parse β} {taken further : Tokens → Prop}
    (gathered : ∀ tokens, taken tokens → Gathered text begun owed tokens)
    (takes : TakesFrom text origin (Gathered text begun owed) production made parser) :
    TakesFrom text origin (Tokens.Then taken further) production made parser := by
  refine takes.weaken ?_
  rintro _ ⟨_, later, rfl, known, -⟩
  exact ⟨fun begins => ((gathered _ known).opens begins).append later, (gathered _ known).held⟩

theorem forget {production : Parse β} {further : Tokens → Prop}
    (takes : TakesFrom text origin (Gathered text begun owed) production made parser) :
    TakesFrom text origin (Tokens.Then (Gathered text begun owed) further) production made
      parser :=
  .forgetWith (fun _ known => known) takes

/-- A production starts, and owes nothing. -/
theorem start {production : Parse β}
    (takes : TakesFrom text parser (Gathered text false []) production made parser) :
    Takes text production made parser :=
  takes.weaken fun _ _ => ⟨nofun, .nil⟩

/-- A production starts with a token that is written, and which it is stays known. -/
theorem beginWith {next : Unit → Parse β} (firm : isFirm parser.ahead = true)
    (later : TakesFrom text parser
      (fun tokens => Gathered text true [] tokens ∧ tokens = [(parser.ahead, parser.aheadSpan)])
      (next ()) made parser.consume) :
    Takes text (Parse.consume >>= next) made parser := by
  refine .take firm (later.weaken ?_)
  rintro _ ⟨_, _, rfl, rfl, rfl, isWide⟩
  exact ⟨⟨fun _ => ⟨_, [], rfl, isWide⟩, .nil⟩, rfl⟩

theorem begin {next : Unit → Parse β} (firm : isFirm parser.ahead = true)
    (later : TakesFrom text parser (Gathered text true []) (next ()) made parser.consume) :
    Takes text (Parse.consume >>= next) made parser :=
  .beginWith firm (later.weaken fun _ known => known.1)

theorem gather {production : Parse α} {next : α → Parse β} {part : α → List Node}
    (first : Gathers text production part parser)
    (later : ∀ value after,
      TakesFrom text origin (Gathered text begun (owed ++ part value)) (next value) made after) :
    TakesFrom text origin (Gathered text begun owed) (production >>= next) made parser := by
  refine TakesFrom.bind first fun value after => (later value after).weaken ?_
  rintro _ ⟨_, passed, rfl, known, back⟩
  exact ⟨fun begins => (known.opens begins).append passed, known.held.append back⟩

/-- A production is the last part of one that goes on from elsewhere. -/
theorem last {production : Parse α} {taken : Tokens → Prop} {part : α → List Node}
    (gathers : Gathers text production part parser) :
    TakesFrom text origin taken production (fun value _ => Held text (part value)) parser := by
  refine (TakesFrom.append gathers).mono ?_
  rintro _ _ ⟨_, _, -, -, held⟩
  exact held

theorem pass {production : Parse α} {next : α → Parse β} (first : Quiet text production parser)
    (later : ∀ value after,
      TakesFrom text origin (Gathered text begun owed) (next value) made after) :
    TakesFrom text origin (Gathered text begun owed) (production >>= next) made parser :=
  TakesFrom.bind first fun value after => (later value after).forget

/-- A question makes no difference to what is owed. -/
theorem look {question : Parse α} {next : α → Parse β} (looks : Looks question parser)
    (later : ∀ value after, Alike parser after →
      TakesFrom text origin (Gathered text begun owed) (next value) made after) :
    TakesFrom text origin (Gathered text begun owed) (question >>= next) made parser := by
  obtain ⟨passed, run⟩ := looks.leads
  exact .step rfl run (later _ _ looks.alike).forget

theorem drop {next : Unit → Parse β} (inner : parser.isAtEnd = false)
    (later : TakesFrom text origin (Gathered text begun owed) (next ()) made parser.consume) :
    TakesFrom text origin (Gathered text begun owed) (Parse.consume >>= next) made parser :=
  .consume inner later.forget

theorem takeIf {token : Token} {next : Bool → Parse β} (inner : token ≠ .endOfInput)
    (found : parser.ahead = token →
      TakesFrom text origin (Gathered text begun owed) (next true) made parser.consume)
    (absent : parser.ahead ≠ token →
      TakesFrom text origin (Gathered text begun owed) (next false) made parser) :
    TakesFrom text origin (Gathered text begun owed) (Parse.accept token >>= next) made parser :=
  .accept inner (fun same => (found same).forget) absent

/-- Whether the token is taken makes no difference. -/
theorem takeEither {token : Token} {next : Bool → Parse β} (inner : token ≠ .endOfInput)
    (later : ∀ found after,
      TakesFrom text origin (Gathered text begun owed) (next found) made after) :
    TakesFrom text origin (Gathered text begun owed) (Parse.accept token >>= next) made parser :=
  .takeIf inner (fun _ => later true _) fun _ => later false parser

theorem due {token : Token} {next : Bool → Parse β} (inner : token ≠ .endOfInput)
    (later : ∀ found after,
      TakesFrom text origin (Gathered text begun owed) (next found) made after) :
    TakesFrom text origin (Gathered text begun owed) (Parse.expect token >>= next) made parser :=
  .expect inner fun found after => (later found after).forget

theorem closing {token : Token} {next : Bool → Parse β} (inner : token ≠ .endOfInput)
    (later : ∀ found after,
      TakesFrom text origin (Gathered text begun owed) (next found) made after) :
    TakesFrom text origin (Gathered text begun owed) (Parse.expectOrSkipTo token >>= next) made
      parser :=
  .expectOrSkipTo inner fun found after => (later found after).forget

theorem give {value : β} {nodes : β → List Node} (inside : nodes value ⊆ owed) :
    TakesFrom text origin (Gathered text begun owed) (Pure.pure value)
      (fun value _ => Held text (nodes value)) parser :=
  .pure fun _ known => known.held.subset inside

/-- A node that needs no place of its own is made of what is owed. -/
theorem node {value : β} {tag : β → Node} (own : (tag value).Exact text)
    (inside : (tag value).children ⊆ owed) :
    TakesFrom text origin (Gathered text begun owed) (Pure.pure value)
      (fun value _ => Held text [tag value]) parser := by
  refine .pure fun _ known => ⟨List.forall_mem_singleton.2 ?_⟩
  exact .intro own (known.held.subset inside).nodes

/-- A span from the origin to here reaches over all that was taken. -/
theorem reachWith {taken : Tokens → Prop} {next : Span → Parse β}
    (opens : ∀ tokens, taken tokens → tokens.Opens)
    (later : ∀ span, TakesFrom text origin
      (fun tokens => taken tokens ∧ span.Reaches tokens ∧ tokens <:+: text) (next span) made
      parser) :
    TakesFrom text origin taken (Parse.spanFrom origin.aheadSpan >>= next) made parser := by
  rw [takes_spanFrom]
  refine (later _).see fun tokens known stands run => ⟨known, ?_, run.slice stands⟩
  exact run.spanFrom stands (opens tokens known)

theorem reach {next : Span → Parse β}
    (later : ∀ span, TakesFrom text origin
      (fun tokens => Gathered text true owed tokens ∧ span.Reaches tokens) (next span) made parser) :
    TakesFrom text origin (Gathered text true owed) (Parse.spanFrom origin.aheadSpan >>= next) made
      parser :=
  .reachWith (fun _ known => known.opens rfl) fun span =>
    (later span).weaken fun _ known => ⟨known.1, known.2.1⟩

end TakesFrom

section Gathering

variable {parser : Parser}

theorem Series.held {each : α → Tokens → Prop} {stops : Tokens → Prop} {values : List α}
    {tokens : Tokens} {tag : α → Node} (series : Series each stops values tokens)
    (items : ∀ value tokens, each value tokens → Held text [tag value]) :
    Held text (values.map tag) := by
  obtain ⟨lists, _, -, all, -⟩ := series
  induction all with
  | nil => exact .nil
  | cons first _ induction => exact (items _ _ first).append induction

theorem rounds_gather {more : Parse Bool} {item : Parse α} {tag : α → Node}
    (rounds : ∀ start, Gathers text (oneRound more item) (fun found => found.toList.map tag) start)
    (parser : Parser) : Gathers text (many more item) (List.map tag) parser := by
  have each : ∀ start, Takes text (oneRound more item)
      (fun found => found.elim (fun _ => True) fun value _ => Held text [tag value]) start := by
    intro start
    refine (rounds start).mono fun found tokens held => ?_
    cases found with
    | none => trivial
    | some value => exact held
  exact (many_takes each parser).mono fun _ _ series => series.held fun _ _ held => held

/-- Items that are gathered, whatever is asked between them. -/
theorem many_gathers {more : Parse Bool} {item : Parse α} {tag : α → Node}
    (asks : ∀ start, Quiet text more start)
    (items : ∀ start, Gathers text item (fun value => [tag value]) start) (parser : Parser) :
    Gathers text (many more item) (List.map tag) parser := by
  refine rounds_gather (fun start => .start (.pass (asks start) fun goes after => ?_)) parser
  cases goes with
  | false => exact .give (List.nil_subset _)
  | true => exact .gather (items after) fun value final => .give (List.Subset.refl _)

/-- Items that are gathered for as long as a token is ahead, which each of them starts with. -/
theorem many_isAt_gathers {token : Token} {item : Parse α} {tag : α → Node}
    (items : ∀ start : Parser, start.ahead = token →
      Gathers text item (fun value => [tag value]) start) (parser : Parser) :
    Gathers text (many (isAt token) item) (List.map tag) parser := by
  refine rounds_gather (fun start => ?_) parser
  unfold oneRound
  simp only [takes_isAt]
  split
  · rename_i found
    have made : Gathers text (item >>= fun value => Pure.pure (some value))
        (fun found => found.toList.map tag) start :=
      .start (.gather (items start (by simpa using found)) fun value after =>
        .give (List.Subset.refl _))
    exact made
  · exact .start (.give (List.nil_subset _))

/-- A production that ends as it should takes tokens, whichever they are. -/
theorem quiet_of_ends {production : Parse α} {post : α → Parser → Prop}
    (stays : Stays .mendless production)
    (ends : ∀ {further}, Ends (fun _ => True) further production parser post) :
    Quiet text production parser := by
  refine ⟨(stays parser trivial).2, ?_⟩
  rintro _ rfl stands - -
  obtain ⟨further, ready⟩ := stands.ready
  obtain ⟨⟨passed, run⟩, -⟩ := ends ready
  exact ⟨passed, run, trivial⟩

theorem quiet_of_still {production : Parse α} (same : (production parser).2 = parser) :
    Quiet text production parser := by
  refine ⟨fun clean => by rwa [same] at clean, fun tokens _ _ _ _ => ⟨[], ?_, trivial⟩⟩
  rw [same]
  exact .refl parser

theorem accept_quiet {token : Token} (inner : token ≠ .endOfInput) (parser : Parser) :
    Quiet text (accept token) parser := by
  have takes : Quiet text (accept token >>= Pure.pure) parser :=
    .accept inner (fun _ => .pure fun _ _ => trivial) fun _ => .pure fun _ _ => trivial
  exact takes

theorem separated_gathers {separator : Token} {item : Parse α} {tag : α → Node}
    (inner : separator ≠ .endOfInput)
    (items : ∀ start, Gathers text item (fun value => [tag value]) start) (parser : Parser) :
    Gathers text (separated separator item) (List.map tag) parser := by
  unfold separated
  refine .start (.gather (items parser) fun first after => ?_)
  refine .gather (many_gathers (accept_quiet inner) items after) fun later final => ?_
  exact .give (by simp)

end Gathering

end Parse

end Offside
