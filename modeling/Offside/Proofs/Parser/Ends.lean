import Offside.Parser.Parse
import Offside.Proofs.Parser.Run

/-!
How productions end. A production is judged from a state by the run it makes and by what holds of its
value and the state after it. The rules below follow the shape of a production: reading the state
changes nothing, each engine operation has a rule of its own, and steps are chained by `Ends.bind`.

A value is accounted for when each of its error nodes was reported where it stands, and placed when
its span belongs to one of the files at hand. Both are promised only as long as there is no fault.
-/

namespace Offside

set_option autoImplicit false

def Context.Reports (context : Context) (span : Span) : Prop :=
  ⟨.unexpectedToken, span⟩ ∈ context.diagnostics ∨ ⟨.nestingTooDeep, span⟩ ∈ context.diagnostics

namespace Parser

structure Ready (files : FileId → Prop) (further : Nat) (parser : Parser) : Prop
    extends parser.Valid files where
  room : parser.depth + further = nestingLimit

def Accounts (parser : Parser) (errors : List Span) : Prop :=
  parser.fault = none → ∀ span ∈ errors, parser.context.Reports span

def Places (files : FileId → Prop) (parser : Parser) (span : Span) : Prop :=
  parser.fault = none → files span.file

/-- A value with these error nodes and this span is accounted for and placed. -/
structure Backs (files : FileId → Prop) (parser : Parser) (errors : List Span) (span : Span) :
    Prop where
  accounted : parser.Accounts errors
  placed : parser.Places files span

def Leads (files : FileId → Prop) (before after : Parser) : Prop :=
  ∃ passed, Run files before passed after

variable {files : FileId → Prop} {before after : Parser}

namespace Leads

theorem refl (parser : Parser) : Leads files parser parser := ⟨[], Run.refl parser⟩

theorem trans {middle : Parser} (first : Leads files before middle)
    (second : Leads files middle after) : Leads files before after := by
  obtain ⟨passed, run⟩ := first
  obtain ⟨later, next⟩ := second
  exact ⟨passed ++ later, run.trans next⟩

theorem consume (inner : before.isAtEnd = false) : Leads files before before.consume :=
  ⟨_, Run.consume inner⟩

theorem remaining_le (leads : Leads files before after) : after.remaining ≤ before.remaining := by
  obtain ⟨passed, run⟩ := leads
  have effect := run.effect.remaining
  omega

theorem progress_or_still (leads : Leads files before after) :
    after.remaining < before.remaining ∨
      after.ahead = before.ahead ∧ after.aheadSpan = before.aheadSpan := by
  obtain ⟨passed, run⟩ := leads
  have effect := run.effect
  cases passed with
  | nil => exact Or.inr (effect.still rfl)
  | cons found later =>
    have fewer := effect.remaining
    rw [List.length_cons] at fewer
    exact Or.inl (by omega)

theorem ready {further : Nat} (leads : Leads files before after)
    (ready : before.Ready files further) : after.Ready files further := by
  obtain ⟨passed, run⟩ := leads
  refine { run.effect.valid ready.toValid with room := ?_ }
  rw [run.effect.depth]
  exact ready.room

theorem accounts {errors : List Span} (leads : Leads files before after)
    (accounted : before.Accounts errors) : after.Accounts errors := by
  obtain ⟨passed, run⟩ := leads
  intro unharmed span member
  have kept := run.effect.context.diagnostics
  rcases accounted (run.effect.fault unharmed) span member with unexpected | nested
  · exact Or.inl (kept _ unexpected)
  · exact Or.inr (kept _ nested)

theorem places {span : Span} (leads : Leads files before after)
    (placed : before.Places files span) : after.Places files span := by
  obtain ⟨passed, run⟩ := leads
  exact fun unharmed => placed (run.effect.fault unharmed)

theorem backs {errors : List Span} {span : Span} (leads : Leads files before after)
    (backed : before.Backs files errors span) : after.Backs files errors span :=
  ⟨leads.accounts backed.accounted, leads.places backed.placed⟩

end Leads

theorem Backs.atDepth {errors : List Span} {span : Span} {parser : Parser} {depth : Nat}
    (backed : parser.Backs files errors span) :
    ({ parser with depth } : Parser).Backs files errors span :=
  ⟨backed.accounted, backed.placed⟩

@[simp] theorem accounts_nil (parser : Parser) : parser.Accounts [] := by
  intro _ span member
  cases member

@[simp] theorem accounts_append (parser : Parser) (left right : List Span) :
    parser.Accounts (left ++ right) ↔ parser.Accounts left ∧ parser.Accounts right := by
  constructor
  · intro accounted
    exact ⟨fun unharmed span member => accounted unharmed span (List.mem_append_left _ member),
      fun unharmed span member => accounted unharmed span (List.mem_append_right _ member)⟩
  · rintro ⟨first, second⟩ unharmed span member
    rcases List.mem_append.1 member with member | member
    · exact first unharmed span member
    · exact second unharmed span member

/-- What holds of every piece holds of a list of errors collected from the pieces. -/
theorem accounts_collected {α : Type} {pieces : List α} {errors : α → List Span}
    {collected : List Span}
    (members : ∀ span, span ∈ collected ↔ ∃ piece ∈ pieces, span ∈ errors piece)
    (parser : Parser) :
    parser.Accounts collected ↔ ∀ piece ∈ pieces, parser.Accounts (errors piece) := by
  constructor
  · intro accounted piece member unharmed span inside
    exact accounted unharmed span ((members span).2 ⟨piece, member, inside⟩)
  · intro accounted unharmed span inside
    obtain ⟨piece, member, inside⟩ := (members span).1 inside
    exact accounted piece member unharmed span inside

theorem Valid.placed {parser : Parser} (valid : parser.Valid files) :
    parser.Places files parser.aheadSpan :=
  fun _ => valid.ahead

theorem spanFrom_file (parser : Parser) (start : Span) :
    (parser.spanFrom start).file = start.file := by
  unfold spanFrom
  split <;> rfl

theorem Places.spanFrom {parser : Parser} {start : Span} (placed : parser.Places files start) :
    parser.Places files (parser.spanFrom start) := by
  intro unharmed
  rw [spanFrom_file]
  exact placed unharmed

/-- The lookahead is among the diagnostics once it was reported, whether now or before. -/
theorem mem_reportUnexpected {parser : Parser} (valid : parser.Valid files) :
    ⟨.unexpectedToken, parser.aheadSpan⟩ ∈ parser.reportUnexpected.context.diagnostics := by
  unfold reportUnexpected
  split
  · rename_i silent
    rcases silent with same | ended
    · exact valid.reported same
    · simp only [endAlreadyReported, Bool.and_eq_true, beq_iff_eq] at ended
      exact Array.mem_of_back? ended.2
  · exact parser.context.mem_report .unexpectedToken parser.aheadSpan

theorem reportUnexpected_accounts {parser : Parser} (valid : parser.Valid files) :
    parser.reportUnexpected.Accounts [parser.aheadSpan] := by
  intro _ span member
  rw [List.mem_singleton.1 member]
  exact Or.inl (mem_reportUnexpected valid)

theorem isAtEnd_reportUnexpected (parser : Parser) :
    parser.reportUnexpected.isAtEnd = parser.isAtEnd := by
  rcases reportUnexpected_cases parser with same | reported
  · rw [same]
  · rw [reported]
    rfl

theorem remaining_reportUnexpected (parser : Parser) :
    parser.reportUnexpected.remaining = parser.remaining := by
  rcases reportUnexpected_cases parser with same | reported
  · rw [same]
  · rw [reported]
    rfl

theorem Leads.consumeInner (parser : Parser) : Leads files parser parser.consumeInner := by
  unfold Parser.consumeInner
  split
  · exact refl parser
  · rename_i inner
    exact consume (by simpa using inner)

theorem remaining_consumeInner_lt {parser : Parser} (inner : parser.isAtEnd = false) :
    parser.consumeInner.remaining < parser.remaining := by
  rw [consumeInner, if_neg (by simp [inner])]
  exact remaining_consume_lt inner

theorem Leads.fail (parser : Parser) : Leads files parser parser.fail :=
  trans ⟨_, Run.report parser⟩ (consumeInner parser.reportUnexpected)

theorem fail_accounts {parser : Parser} (valid : parser.Valid files) :
    parser.fail.Accounts [parser.aheadSpan] := by
  have leads : Leads files parser.reportUnexpected parser.fail :=
    Leads.consumeInner parser.reportUnexpected
  exact leads.accounts (reportUnexpected_accounts valid)

theorem remaining_fail_lt {parser : Parser} (inner : parser.isAtEnd = false) :
    parser.fail.remaining < parser.remaining := by
  rw [← remaining_reportUnexpected parser]
  exact remaining_consumeInner_lt ((isAtEnd_reportUnexpected parser).trans inner)

theorem Leads.skipTo (token : Token) (parser : Parser) :
    Leads files parser (parser.skipTo token) := by
  fun_induction Parser.skipTo token parser with
  | case1 parser ended => exact refl parser
  | case2 parser inner found => exact refl parser
  | case3 parser inner other fewer induction =>
    exact (consume (by simpa using inner)).trans induction

theorem Leads.skipToAny (tokens : List Token) (depth : Nat) (parser : Parser) :
    Leads files parser (parser.skipToAny tokens depth) := by
  fun_induction Parser.skipToAny tokens depth parser with
  | case1 depth parser ended => exact refl parser
  | case2 depth parser inner found => exact refl parser
  | case3 depth parser inner other fewer induction =>
    exact (consume (by simpa using inner)).trans induction

/-- Only copies of the token are passed. -/
theorem Run.skipAll (token : Token) (parser : Parser) :
    ∃ passed, (∀ found ∈ passed, found.1 = token) ∧
      Run files parser passed (parser.skipAll token) := by
  fun_induction Parser.skipAll token parser with
  | case1 parser ended => exact ⟨[], by simp, Run.refl parser⟩
  | case2 parser inner found fewer induction =>
    obtain ⟨passed, same, run⟩ := induction
    exact ⟨(parser.ahead, parser.aheadSpan) :: passed, List.forall_mem_cons.2 ⟨found, same⟩,
      (Run.consume (by simpa using inner)).trans run⟩
  | case3 parser inner other => exact ⟨[], by simp, Run.refl parser⟩

theorem Leads.skipAll (token : Token) (parser : Parser) :
    Leads files parser (parser.skipAll token) := by
  obtain ⟨passed, _, run⟩ := Run.skipAll token parser
  exact ⟨passed, run⟩

/-- Peeking shows the next token and does not change which one it is. -/
structure Alike (before after : Parser) : Prop where
  ahead : after.ahead = before.ahead
  aheadSpan : after.aheadSpan = before.aheadSpan
  next : after.consume.ahead = before.consume.ahead

theorem Alike.trans {middle : Parser} (first : Alike before middle) (second : Alike middle after) :
    Alike before after :=
  ⟨second.ahead.trans first.ahead, second.aheadSpan.trans first.aheadSpan,
    second.next.trans first.next⟩

theorem Alike.isAtEnd (alike : Alike before after) : after.isAtEnd = before.isAtEnd := by
  simp [Parser.isAtEnd, alike.ahead]

theorem consume_ahead_of_buffered {parser : Parser} {found : Token × Span}
    {later : List (Token × Span)} (buffered : parser.buffered = found :: later) :
    parser.consume.ahead = found.1 := by
  simp [consume, buffered]

theorem buffered_fill_one (parser : Parser) :
    (parser.fill 1).buffered = parser.buffered ++ [parser.pull.1] := rfl

theorem Alike.fill (count : Nat) (parser : Parser) : Alike parser (parser.fill count) := by
  induction count generalizing parser with
  | zero => exact ⟨rfl, rfl, rfl⟩
  | succ count induction =>
    have first : Alike parser (parser.fill 1) := by
      refine ⟨rfl, rfl, ?_⟩
      have grown := buffered_fill_one parser
      cases buffered : parser.buffered with
      | nil =>
        rw [buffered, List.nil_append] at grown
        rw [consume_ahead_of_buffered grown]
        simp [consume, buffered, pull]
      | cons found later =>
        rw [buffered, List.cons_append] at grown
        rw [consume_ahead_of_buffered grown, consume_ahead_of_buffered buffered]
    exact first.trans (induction (parser.fill 1))

theorem length_buffered_fill (count : Nat) (parser : Parser) :
    (parser.fill count).buffered.length = parser.buffered.length + count := by
  induction count generalizing parser with
  | zero => rfl
  | succ count induction =>
    have grown : (parser.fill 1).buffered.length = parser.buffered.length + 1 := by
      simp [buffered_fill_one]
    change ((parser.fill 1).fill count).buffered.length = _
    rw [induction, grown]
    omega

theorem peek_apply {distance : Nat} (near : 1 ≤ distance) (within : distance ≤ reach)
    (parser : Parser) :
    parser.peek distance =
      ((parser.fill (distance - parser.buffered.length)).buffered.getD (distance - 1)
        (.endOfInput, (parser.fill (distance - parser.buffered.length)).aheadSpan),
        parser.fill (distance - parser.buffered.length)) := by
  rw [peek, if_pos ⟨near, within⟩]

theorem Run.peek {distance : Nat} (near : 1 ≤ distance) (within : distance ≤ reach)
    (parser : Parser) : Run files parser [] (parser.peek distance).2 := by
  rw [peek_apply near within]
  by_cases short : parser.buffered.length ≤ distance
  · exact Run.fill_many (by omega)
  · rw [Nat.sub_eq_zero_of_le (by omega)]
    exact Run.refl parser

theorem Leads.peek {distance : Nat} (near : 1 ≤ distance) (within : distance ≤ reach)
    (parser : Parser) : Leads files parser (parser.peek distance).2 :=
  ⟨[], Run.peek near within parser⟩

theorem Alike.peek {distance : Nat} (near : 1 ≤ distance) (within : distance ≤ reach)
    (parser : Parser) : Alike parser (parser.peek distance).2 := by
  rw [peek_apply near within]
  exact Alike.fill _ parser

theorem peek_one (parser : Parser) : (parser.peek 1).1.1 = parser.consume.ahead := by
  rw [peek_apply (Nat.le_refl 1) (by decide)]
  have filled := length_buffered_fill (1 - parser.buffered.length) parser
  have alike := Alike.fill (1 - parser.buffered.length) parser
  cases buffered : (parser.fill (1 - parser.buffered.length)).buffered with
  | nil =>
    rw [buffered, List.length_nil] at filled
    omega
  | cons found later =>
    rw [← alike.next, consume_ahead_of_buffered buffered]
    rfl

end Parser

namespace Parse

open Offside.Parser

/-- From the given state a production makes a run and ends as stated. -/
def Ends {α : Type} (files : FileId → Prop) (further : Nat) (production : Parse α)
    (parser : Parser) (post : α → Parser → Prop) : Prop :=
  parser.Ready files further →
    Leads files parser (production parser).2 ∧ post (production parser).1 (production parser).2

section Rules

variable {α β : Type} {files : FileId → Prop} {further : Nat} {parser : Parser}
  {post : β → Parser → Prop} {token : Token}

theorem Ends.bind {production : Parse α} {next : α → Parse β} {middle : α → Parser → Prop}
    (first : Ends files further production parser middle)
    (later : ∀ value after, Leads files parser after → middle value after →
      Ends files further (next value) after post) :
    Ends files further (production >>= next) parser post := by
  intro ready
  obtain ⟨leads, holds⟩ := first ready
  obtain ⟨goesOn, ends⟩ := later _ _ leads holds (leads.ready ready)
  exact ⟨leads.trans goesOn, ends⟩

theorem Ends.mono {production : Parse β} {weaker : β → Parser → Prop}
    (ends : Ends files further production parser post)
    (weaken : ∀ value after, Leads files parser after → post value after → weaker value after) :
    Ends files further production parser weaker := by
  intro ready
  obtain ⟨leads, holds⟩ := ends ready
  exact ⟨leads, weaken _ _ leads holds⟩

theorem Ends.map {production : Parse α} {change : α → β}
    (ends : Ends files further production parser fun value after => post (change value) after) :
    Ends files further (change <$> production) parser post :=
  ends

theorem Ends.pure {value : β} (holds : post value parser) :
    Ends files further (pure value) parser post :=
  fun _ => ⟨Leads.refl parser, holds⟩

theorem Ends.of_ready {production : Parse β}
    (ends : parser.Ready files further → Ends files further production parser post) :
    Ends files further production parser post :=
  fun ready => ends ready ready

theorem bind_apply (first : Parse α) (next : α → Parse β) :
    (first >>= next) parser = next (first parser).1 (first parser).2 :=
  rfl

theorem ahead_bind_apply (next : Token → Parse β) :
    (ahead >>= next) parser = next parser.ahead parser :=
  rfl

@[simp] theorem ends_ahead {next : Token → Parse β} :
    Ends files further (ahead >>= next) parser post ↔
      Ends files further (next parser.ahead) parser post :=
  Iff.rfl

@[simp] theorem ends_aheadSpan {next : Span → Parse β} :
    Ends files further (aheadSpan >>= next) parser post ↔
      Ends files further (next parser.aheadSpan) parser post :=
  Iff.rfl

@[simp] theorem ends_isAt {next : Bool → Parse β} :
    Ends files further (isAt token >>= next) parser post ↔
      Ends files further (next (decide (parser.ahead = token))) parser post :=
  Iff.rfl

@[simp] theorem ends_isAtEnd {next : Bool → Parse β} :
    Ends files further (isAtEnd >>= next) parser post ↔
      Ends files further (next parser.isAtEnd) parser post :=
  Iff.rfl

@[simp] theorem ends_spanFrom {start : Span} {next : Span → Parse β} :
    Ends files further (spanFrom start >>= next) parser post ↔
      Ends files further (next (parser.spanFrom start)) parser post :=
  Iff.rfl

@[simp] theorem ends_get {next : Parser → Parse β} :
    Ends files further (get >>= next) parser post ↔
      Ends files further (next parser) parser post :=
  Iff.rfl

theorem ends_bind_assoc {γ : Type} {first : Parse α} {second : α → Parse γ} {third : γ → Parse β} :
    Ends files further ((first >>= second) >>= third) parser post ↔
      Ends files further (first >>= fun value => second value >>= third) parser post :=
  Iff.rfl

theorem Ends.step {production : Parse α} {next : α → Parse β} {value : α} {after : Parser}
    (known : production parser = (value, after)) (leads : Leads files parser after)
    (ends : Ends files further (next value) after post) :
    Ends files further (production >>= next) parser post := by
  have same : (production >>= next) parser = next value after := by
    change next (production parser).1 (production parser).2 = _
    rw [known]
  intro ready
  obtain ⟨goesOn, holds⟩ := ends (leads.ready ready)
  rw [same]
  exact ⟨leads.trans goesOn, holds⟩

/-- A last step that only changes the state. -/
theorem Ends.modify {change : Parser → Parser} {post : Unit → Parser → Prop}
    (leads : Leads files parser (change parser)) (holds : post () (change parser)) :
    Ends files further (modify change) parser post :=
  fun _ => ⟨leads, holds⟩

theorem Ends.consume {next : Unit → Parse β} (inner : parser.isAtEnd = false)
    (ends : Leads files parser parser.consume →
      Ends files further (next ()) parser.consume post) :
    Ends files further (Parse.consume >>= next) parser post :=
  Ends.step rfl (Leads.consume inner) (ends (Leads.consume inner))

theorem Ends.passing {next : Unit → Parse β} (inner : parser.isAtEnd = false)
    (ends : Leads files parser parser.consume →
      Ends files further (next ()) parser.consume post) :
    Ends files further (Parse.consume >>= next) parser fun value after =>
      post value after ∧ after.remaining < parser.remaining := by
  apply Ends.consume inner
  intro leads
  apply (ends leads).mono
  intro value after goesOn held
  exact ⟨held, Nat.lt_of_le_of_lt goesOn.remaining_le (remaining_consume_lt inner)⟩

theorem Ends.reportUnexpected {next : Unit → Parse β}
    (ends : Leads files parser parser.reportUnexpected →
      Ends files further (next ()) parser.reportUnexpected post) :
    Ends files further (Parse.reportUnexpected >>= next) parser post :=
  Ends.step rfl ⟨_, Run.report parser⟩ (ends ⟨_, Run.report parser⟩)

theorem Ends.fail {next : Unit → Parse β}
    (ends : Leads files parser parser.fail → Ends files further (next ()) parser.fail post) :
    Ends files further (Parse.fail >>= next) parser post :=
  Ends.step rfl (Leads.fail parser) (ends (Leads.fail parser))

theorem Ends.skipTo {next : Unit → Parse β}
    (ends : Leads files parser (parser.skipTo token) →
      Ends files further (next ()) (parser.skipTo token) post) :
    Ends files further (Parse.skipTo token >>= next) parser post :=
  Ends.step rfl (Leads.skipTo token parser) (ends (Leads.skipTo token parser))

theorem Ends.skipToAny {tokens : List Token} {next : Unit → Parse β}
    (ends : Leads files parser (parser.skipToAny tokens 0) →
      Ends files further (next ()) (parser.skipToAny tokens 0) post) :
    Ends files further (Parse.skipToAny tokens >>= next) parser post :=
  Ends.step rfl (Leads.skipToAny tokens 0 parser) (ends (Leads.skipToAny tokens 0 parser))

theorem Ends.skipAll {next : Unit → Parse β}
    (ends : Leads files parser (parser.skipAll token) →
      Ends files further (next ()) (parser.skipAll token) post) :
    Ends files further (Parse.skipAll token >>= next) parser post :=
  Ends.step rfl (Leads.skipAll token parser) (ends (Leads.skipAll token parser))

theorem accept_apply (inner : token ≠ .endOfInput) (parser : Parser) :
    Parse.accept token parser =
      if parser.ahead = token then (true, parser.consume) else (false, parser) := by
  unfold Parse.accept
  rw [if_neg inner]
  change (if decide (parser.ahead = token) = true then _ else _ : Parse Bool) parser = _
  by_cases found : parser.ahead = token
  · rw [if_pos (by simpa using found), if_pos found]
    rfl
  · rw [if_neg (by simpa using found), if_neg found]
    rfl

theorem expect_apply (inner : token ≠ .endOfInput) (parser : Parser) :
    Parse.expect token parser =
      if parser.ahead = token then (true, parser.consume) else (false, parser.fail) := by
  unfold Parse.expect
  rw [if_neg inner]
  change (if decide (parser.ahead = token) = true then _ else _ : Parse Bool) parser = _
  by_cases found : parser.ahead = token
  · rw [if_pos (by simpa using found), if_pos found]
    rfl
  · rw [if_neg (by simpa using found), if_neg found]
    rfl

theorem isAtEnd_of_ahead (inner : token ≠ .endOfInput) (found : parser.ahead = token) :
    parser.isAtEnd = false := by
  simpa [Parser.isAtEnd, found] using inner

/-- The token is the lookahead and is taken, or it is not and nothing changes. -/
theorem Ends.accept {next : Bool → Parse β} (inner : token ≠ .endOfInput)
    (taken : parser.ahead = token → Leads files parser parser.consume →
      Ends files further (next true) parser.consume post)
    (absent : parser.ahead ≠ token → Ends files further (next false) parser post) :
    Ends files further (Parse.accept token >>= next) parser post := by
  have known := accept_apply inner parser
  by_cases found : parser.ahead = token
  · have leads : Leads files parser parser.consume :=
      Leads.consume (isAtEnd_of_ahead inner found)
    rw [if_pos found] at known
    exact Ends.step known leads (taken found leads)
  · rw [if_neg found] at known
    exact Ends.step known (Leads.refl parser) (absent found)

/-- Whether the token is taken makes no difference. -/
theorem Ends.accept_either {next : Bool → Parse β} (inner : token ≠ .endOfInput)
    (ends : ∀ found after, Leads files parser after → Ends files further (next found) after post) :
    Ends files further (Parse.accept token >>= next) parser post := by
  apply Ends.accept inner
  · intro _ leads
    exact ends true parser.consume leads
  · intro _
    exact ends false parser (Leads.refl parser)

/-- A token that was not the expected one is reported. Either way it is passed. -/
theorem expect_ends (inner : token ≠ .endOfInput) (parser : Parser) :
    Ends files further (Parse.expect token) parser fun found after =>
      (found = false → after.Accounts [parser.aheadSpan]) ∧
        (parser.isAtEnd = false → after.remaining < parser.remaining) := by
  intro ready
  rw [expect_apply inner]
  by_cases found : parser.ahead = token
  · have inside := isAtEnd_of_ahead inner found
    rw [if_pos found]
    exact ⟨Leads.consume inside, by simp, remaining_consume_lt⟩
  · rw [if_neg found]
    exact ⟨Leads.fail parser, fun _ => fail_accounts ready.toValid, remaining_fail_lt⟩

theorem Ends.expect {next : Bool → Parse β} (inner : token ≠ .endOfInput)
    (ends : ∀ found after, Leads files parser after → Ends files further (next found) after post) :
    Ends files further (Parse.expect token >>= next) parser post :=
  Ends.bind (expect_ends inner parser) fun found after leads _ => ends found after leads

theorem expectOrSkipTo_ends (inner : token ≠ .endOfInput) (parser : Parser) :
    Ends files further (Parse.expectOrSkipTo token) parser fun _ _ => True := by
  unfold Parse.expectOrSkipTo
  refine Ends.expect inner fun found after _ => ?_
  cases found with
  | true => exact Ends.pure trivial
  | false =>
    rw [if_neg Bool.false_ne_true, if_neg inner]
    refine Ends.skipTo fun _ => Ends.accept inner (fun _ _ => ?_) (fun _ => ?_)
    · exact Ends.pure trivial
    · exact Ends.pure trivial

theorem Ends.expectOrSkipTo {next : Bool → Parse β} (inner : token ≠ .endOfInput)
    (ends : ∀ found after, Leads files parser after → Ends files further (next found) after post) :
    Ends files further (Parse.expectOrSkipTo token >>= next) parser post :=
  Ends.bind (expectOrSkipTo_ends inner parser) fun found after leads _ => ends found after leads

/-- The token at distance one is the one that consuming would bring. -/
theorem Ends.peek {distance : Nat} {next : Token → Parse β} (near : 1 ≤ distance)
    (within : distance ≤ reach)
    (ends : ∀ token after, Leads files parser after → Alike parser after →
      (distance = 1 → token = parser.consume.ahead) →
      Ends files further (next token) after post) :
    Ends files further (Parse.peek distance >>= next) parser post := by
  have known : Parse.peek distance parser =
      ((parser.peek distance).1.1, (parser.peek distance).2) := rfl
  refine Ends.step known (Leads.peek near within parser) ?_
  refine ends _ _ (Leads.peek near within parser) (Alike.peek near within parser) ?_
  rintro rfl
  exact peek_one parser

theorem Ends.peekSpan {distance : Nat} {next : Span → Parse β} (near : 1 ≤ distance)
    (within : distance ≤ reach)
    (ends : ∀ span after, Leads files parser after → Alike parser after →
      Ends files further (next span) after post) :
    Ends files further (Parse.peekSpan distance >>= next) parser post := by
  have known : Parse.peekSpan distance parser =
      ((parser.peek distance).1.2, (parser.peek distance).2) := rfl
  refine Ends.step known (Leads.peek near within parser) ?_
  exact ends _ _ (Leads.peek near within parser) (Alike.peek near within parser)

theorem raise_of_fault {fault : Fault} (harmed : parser.fault ≠ none) :
    parser.raise fault = parser := by
  cases found : parser.fault with
  | none => exact absurd found harmed
  | some earlier =>
    have kept : (parser.fault <|> some fault) = parser.fault := by simp [found]
    rw [Parser.raise, kept]

theorem raise_fault_ne_none (parser : Parser) (fault : Fault) :
    (parser.raise fault).fault ≠ none := by
  cases found : parser.fault with
  | none => simp [Parser.raise, found]
  | some earlier => simp [Parser.raise, found]

/-- Joining placed spans is legal: it fails only where two files are at hand. -/
theorem Leads.raise {first last : Span} (placedFirst : parser.Places files first)
    (placedLast : parser.Places files last) (differ : first.file ≠ last.file) :
    Leads files parser (parser.raise (.filesDiffer first.file last.file)) := by
  by_cases unharmed : parser.fault = none
  · exact ⟨[], Run.raise (placedFirst unharmed) (placedLast unharmed) differ⟩
  · rw [raise_of_fault unharmed]
    exact Leads.refl parser

theorem join_ends {first last : Span} (placedFirst : parser.Places files first)
    (placedLast : parser.Places files last) :
    Ends files further (Parse.join first last) parser fun span after =>
      after.Places files span := by
  intro _
  unfold Parse.join Span.join
  by_cases same : first.file = last.file
  · rw [if_pos same]
    exact ⟨Leads.refl parser, placedFirst⟩
  · rw [if_neg same]
    exact ⟨Leads.raise placedFirst placedLast same,
      fun unharmed => absurd unharmed (raise_fault_ne_none parser _)⟩

end Rules

end Parse

end Offside
