import Offside.Proofs.Parser.Ends

/-!
Repetition and nesting. A repetition ends as its rounds do, provided that each round makes progress;
then it never stalls. A nested production ends as the production itself does one level deeper, and a
refused one reports the lookahead.
-/

namespace Offside.Parse

set_option autoImplicit false

open Offside.Parser

variable {α β : Type} {files : FileId → Prop} {further : Nat} {parser : Parser}

/-- A repetition unrolled: whether it goes on, the first round and, if that made progress, the rounds
after it. -/
theorem many_unroll (more : Parse Bool) (item : Parse α) (parser : Parser) :
    many more item parser =
      if (more parser).1 then
        if (item (more parser).2).2.remaining < parser.remaining then
          ((item (more parser).2).1 :: (many more item (item (more parser).2).2).1,
            (many more item (item (more parser).2).2).2)
        else ([(item (more parser).2).1], (item (more parser).2).2.raise .stalled)
      else ([], (more parser).2) := by
  have unrolled : many more item parser =
      ((repeatBelow more (Sum.inl <$> item : Parse (α ⊕ Empty)) parser.remaining parser).1.1,
        (repeatBelow more (Sum.inl <$> item : Parse (α ⊕ Empty)) parser.remaining parser).2) := rfl
  rw [unrolled, repeatBelow]
  rcases more parser with ⟨goes, going⟩
  cases goes with
  | false => rfl
  | true =>
    have applied : (Sum.inl <$> item : Parse (α ⊕ Empty)) going =
        (.inl (item going).1, (item going).2) := rfl
    simp only [applied, if_true]
    split
    · rfl
    · rfl

/-- What a repetition does whose question looks at the next token. -/
theorem many_apply {more : Parse Bool} {goes : Token → Bool}
    (asks : ∀ parser, more parser = (goes parser.ahead, parser)) (item : Parse α)
    (parser : Parser) :
    many more item parser =
      if goes parser.ahead then
        if (item parser).2.remaining < parser.remaining then
          ((item parser).1 :: (many more item (item parser).2).1, (many more item (item parser).2).2)
        else ([(item parser).1], (item parser).2.raise .stalled)
      else ([], parser) := by
  rw [many_unroll, asks]

/-- What holds of a value goes on to hold. -/
def Stable (files : FileId → Prop) (holds : α → Parser → Prop) : Prop :=
  ∀ value before after, Leads files before after → holds value before → holds value after

theorem stable_accounts (errors : α → List Span) :
    Stable files fun value parser => parser.Accounts (errors value) :=
  fun _ _ _ leads accounted => leads.accounts accounted

/-- What a round of a repetition ends with: a value, after progress since the round began, or the
last value. -/
def roundEnds (holds : α → Parser → Prop) (closes : β → Parser → Prop) (start : Parser)
    (found : α ⊕ β) (after : Parser) : Prop :=
  match found with
  | .inl value => after.remaining < start.remaining ∧ holds value after
  | .inr last => closes last after

/-- Rounds are judged from every state that the repetition may reach. -/
theorem repeatBelow_ends {more : Parse Bool} {item : Parse (α ⊕ β)} {holds : α → Parser → Prop}
    {closes : β → Parser → Prop} {origin : Parser} (stable : Stable files holds)
    (round : ∀ start, Leads files origin start → Ends files further more start fun goes after =>
      goes = true → Ends files further item after (roundEnds holds closes start))
    (bound : Nat) (parser : Parser) (reached : Leads files origin parser)
    (bounded : parser.remaining = bound) :
    Ends files further (repeatBelow more item bound) parser fun found after =>
      (∀ value ∈ found.1, holds value after) ∧ ∀ last ∈ found.2, closes last after := by
  induction bound using Nat.strong_induction_on generalizing parser with
  | _ bound induction =>
    intro ready
    obtain ⟨asked, goesOn⟩ := round parser reached ready
    rw [repeatBelow]
    rcases answer : more parser with ⟨goes, going⟩
    rw [answer] at asked goesOn
    cases goes with
    | false => exact ⟨asked, by simp⟩
    | true =>
      obtain ⟨read, ended⟩ := goesOn rfl (asked.ready ready)
      rcases answer : item going with ⟨found, after⟩
      simp only [answer] at read ended ⊢
      cases found with
      | inr last => exact ⟨asked.trans read, by simpa [roundEnds] using ended⟩
      | inl value =>
        obtain ⟨progress, held⟩ := ended
        rw [bounded] at progress
        have leads := asked.trans read
        obtain ⟨later, rest⟩ := induction after.remaining progress after
          (reached.trans leads) rfl (leads.ready ready)
        simp only [if_pos progress]
        refine ⟨leads.trans later, ?_, rest.2⟩
        intro found member
        rcases List.mem_cons.1 member with rfl | member
        · exact stable found after _ later held
        · exact rest.1 found member

theorem repeatUntil_ends {more : Parse Bool} {item : Parse (α ⊕ β)} {holds : α → Parser → Prop}
    {closes : β → Parser → Prop} (stable : Stable files holds)
    (round : ∀ start, Leads files parser start → Ends files further more start fun goes after =>
      goes = true → Ends files further item after (roundEnds holds closes start)) :
    Ends files further (repeatUntil more item) parser fun found after =>
      (∀ value ∈ found.1, holds value after) ∧ ∀ last ∈ found.2, closes last after :=
  repeatBelow_ends stable round parser.remaining parser (Leads.refl parser) rfl

/-- Rounds are judged from the states that the repetition may reach. -/
theorem many_ends_along {more : Parse Bool} {item : Parse α} {holds : α → Parser → Prop}
    (stable : Stable files holds)
    (round : ∀ start, Leads files parser start →
      Ends files further more start fun goes after => goes = true →
        Ends files further item after fun value final =>
          final.remaining < start.remaining ∧ holds value final) :
    Ends files further (many more item) parser fun values after =>
      ∀ value ∈ values, holds value after := by
  unfold many
  have rounds : ∀ start, Leads files parser start →
      Ends files further more start fun goes after => goes = true →
        Ends files further (Sum.inl <$> item : Parse (α ⊕ Empty)) after
          (roundEnds holds (fun _ _ => True) start) := by
    intro start reached
    exact (round start reached).mono fun goes after _ goesOn going => Ends.map (goesOn going)
  refine Ends.bind (repeatUntil_ends stable rounds) ?_
  rintro ⟨values, last⟩ after _ ended
  exact Ends.pure ended.1

theorem many_ends {more : Parse Bool} {item : Parse α} {holds : α → Parser → Prop}
    (stable : Stable files holds)
    (round : ∀ start, Ends files further more start fun goes after => goes = true →
      Ends files further item after fun value final =>
        final.remaining < start.remaining ∧ holds value final)
    (parser : Parser) :
    Ends files further (many more item) parser fun values after =>
      ∀ value ∈ values, holds value after :=
  many_ends_along stable fun start _ => round start

theorem many_accept_ends {separator : Token} {item : Parse α} {holds : α → Parser → Prop}
    (inner : separator ≠ .endOfInput) (stable : Stable files holds)
    (each : ∀ start, Ends files further item start holds) (parser : Parser) :
    Ends files further (many (accept separator) item) parser fun values after =>
      ∀ value ∈ values, holds value after := by
  refine many_ends stable (fun start => ?_) parser
  intro ready
  rw [accept_apply inner]
  by_cases found : start.ahead = separator
  · have inside := isAtEnd_of_ahead inner found
    rw [if_pos found]
    refine ⟨Leads.consume inside, fun _ => (each start.consume).mono ?_⟩
    intro value final leads held
    exact ⟨Nat.lt_of_le_of_lt leads.remaining_le (remaining_consume_lt inside), held⟩
  · rw [if_neg found]
    exact ⟨Leads.refl start, by simp⟩

theorem separated_ends {separator : Token} {item : Parse α} {holds : α → Parser → Prop}
    (inner : separator ≠ .endOfInput) (stable : Stable files holds)
    (each : ∀ start, Ends files further item start holds) (parser : Parser) :
    Ends files further (separated separator item) parser fun values after =>
      ∀ value ∈ values, holds value after := by
  unfold separated
  refine Ends.bind (each parser) fun first afterFirst _ held => ?_
  refine Ends.bind (many_accept_ends inner stable each afterFirst) ?_
  intro later final leads heldLater
  refine Ends.pure ?_
  intro value member
  rcases List.mem_cons.1 member with rfl | member
  · exact stable value afterFirst final leads held
  · exact heldLater value member

/-- One nesting level is entered for a production, which is never refused while there is room. What
is promised must not depend on the depth. -/
theorem nested_ends {refused : Span → α} {production : Parse α} {post : α → Parser → Prop}
    (shallow : ∀ value after depth, post value after → post value { after with depth })
    (ends : Ends files further production { parser with depth := parser.depth + 1 } post) :
    Ends files (further + 1) (nested refused production) parser post := by
  intro ready
  have room : parser.depth < nestingLimit := by
    have total := ready.room
    omega
  have entered : ({ parser with depth := parser.depth + 1 } : Parser).Ready files further :=
    { ready with
      room := by
        have total := ready.room
        change parser.depth + 1 + further = nestingLimit
        omega }
  obtain ⟨⟨passed, run⟩, held⟩ := ends entered
  have depth := run.effect.depth
  have known : nested refused production parser =
      ((production { parser with depth := parser.depth + 1 }).1,
        (production { parser with depth := parser.depth + 1 }).2.leaveNesting) := by
    have enters : enterNesting parser = (none, { parser with depth := parser.depth + 1 }) := by
      change parser.enterNesting = _
      rw [Parser.enterNesting, if_pos room]
    rw [nested, bind_apply, enters]
    rfl
  rw [known]
  refine ⟨⟨passed, Run.nested room run⟩, ?_⟩
  rw [Parser.leaveNesting, if_pos (by rw [depth]; exact Nat.succ_pos _)]
  exact shallow _ _ _ held

theorem refuse_ends {refused : Span → α} (parser : Parser) :
    Ends files 0 (refuse refused) parser fun value after =>
      value = refused parser.aheadSpan ∧ after.Accounts [parser.aheadSpan] ∧
        after.Places files parser.aheadSpan ∧
        (parser.isAtEnd = false → after.remaining < parser.remaining) := by
  intro ready
  have reported : Leads files parser
      { parser with context := parser.context.report .nestingTooDeep parser.aheadSpan } :=
    ⟨[], Run.refuse (by simpa using ready.room)⟩
  have moved : Leads files
      { parser with context := parser.context.report .nestingTooDeep parser.aheadSpan }
      (refuse refused parser).2 := Leads.consumeInner _
  refine ⟨reported.trans moved, rfl, moved.accounts ?_, fun _ => ready.ahead, fun inner => ?_⟩
  · intro _ span member
    rw [List.mem_singleton.1 member]
    exact Or.inr (parser.context.mem_report .nestingTooDeep parser.aheadSpan)
  · have inside : ({ parser with
        context := parser.context.report .nestingTooDeep parser.aheadSpan } : Parser).isAtEnd =
          false := inner
    exact remaining_consumeInner_lt inside

theorem many_ne_nil {more : Parse Bool} {item : Parse α} {parser : Parser}
    (goes : (more parser).1 = true) : (many more item parser).1 ≠ [] := by
  rw [many_unroll, if_pos goes]
  split
  · exact List.cons_ne_nil _ _
  · exact List.cons_ne_nil _ _

theorem accept_called {token : Token} (inner : token ≠ .endOfInput) {parser : Parser}
    (stands : parser.ahead = token) : (accept token parser).1 = true := by
  rw [accept_apply inner, if_pos stands]

end Offside.Parse
