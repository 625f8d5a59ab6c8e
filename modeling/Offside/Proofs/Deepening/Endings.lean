import Offside.Proofs.Deepening.Patterns

/-!
What stands in front of a production that ended clean. Types and applications go on while a name
follows, so they do not end in front of one. An expression ends in front of a name only if its last
tokens are those of a block, and there alone an operator is looked for by two tokens.
-/

namespace Offside

set_option autoImplicit false

open Offside.Parser

namespace Parse

variable {α β : Type}

/-- Where a production ends clean something holds of its value and of the state. -/
def Settles (production : Parse α) (holds : α → Parser → Prop) (parser : Parser) : Prop :=
  (production parser).2.Clean → holds (production parser).1 (production parser).2

namespace Settles

variable {first : Parse α} {next : α → Parse β} {middle : α → Parser → Prop}
  {holds : β → Parser → Prop} {parser : Parser}

theorem pure {value : β} (held : parser.Clean → holds value parser) :
    Settles (Pure.pure value) holds parser :=
  held

/-- How a production ends is told by the last of its parts. -/
theorem after (later : ∀ value after, Settles (next value) holds after) :
    Settles (first >>= next) holds parser :=
  later _ _

theorem bind (settles : Settles first middle parser)
    (later : ∀ value after, (after.Clean → middle value after) → Settles (next value) holds after) :
    Settles (first >>= next) holds parser :=
  later _ _ settles

theorem many_while {isKind : Token → Bool} {item : Parse α} :
    Settles (many (do return isKind (← Parse.ahead)) item)
      (fun _ after => isKind after.ahead = false) parser := by
  have asks : ∀ parser, (do return isKind (← Parse.ahead) : Parse Bool) parser =
      (isKind parser.ahead, parser) := fun _ => rfl
  intro clean
  induction bound : parser.remaining using Nat.strong_induction_on generalizing parser with
  | _ bound induction =>
    subst bound
    rw [many_apply asks] at clean ⊢
    split at clean
    · split at clean
      · rename_i goesOn consumed
        rw [if_pos goesOn, if_pos consumed]
        exact induction _ consumed clean rfl
      · exact absurd clean (raise_spoils _ _)
    · rename_i stops
      rw [if_neg stops]
      simpa using stops

/-- So are items of which one may be the last. -/
theorem repeatUntil_while {γ : Type} {isKind : Token → Bool} {item : Parse (α ⊕ γ)} :
    Settles (repeatUntil (do return isKind (← Parse.ahead)) item)
      (fun found after => found.2 = none → isKind after.ahead = false) parser := by
  intro clean
  induction bound : parser.remaining using Nat.strong_induction_on generalizing parser with
  | _ bound induction =>
    subst bound
    have unrolled : repeatUntil (do return isKind (← Parse.ahead)) item parser =
        (oneRound (do return isKind (← Parse.ahead)) item >>=
          afterRound (do return isKind (← Parse.ahead)) item parser.remaining) parser :=
      repeatBelow_eq _ item parser.remaining parser
    rw [bind_apply] at unrolled
    by_cases goesOn : isKind parser.ahead = true
    · have round : oneRound (do return isKind (← Parse.ahead)) item parser =
          (some (item parser).1, (item parser).2) := by
        rw [oneRound, bind_apply, show (do return isKind (← Parse.ahead) : Parse Bool) parser =
          (true, parser) from congrArg (·, parser) goesOn]
        rfl
      rw [round] at unrolled
      cases found : (item parser).1 with
      | inr last =>
        rw [unrolled, found]
        intro none
        cases none
      | inl value =>
        rw [found, afterRound_inl] at unrolled
        rw [unrolled] at clean ⊢
        split at clean
        · rename_i consumed
          rw [if_pos consumed]
          exact induction _ consumed clean rfl
        · exact absurd clean (raise_spoils _ _)
    · have stops : isKind parser.ahead = false := by simpa using goesOn
      have round : oneRound (do return isKind (← Parse.ahead)) item parser = (none, parser) := by
        rw [oneRound, bind_apply, show (do return isKind (← Parse.ahead) : Parse Bool) parser =
          (false, parser) from congrArg (·, parser) stops]
        rfl
      rw [round] at unrolled
      rw [unrolled]
      exact fun _ => stops

theorem join {start last : Span} {next : Span → Parse β}
    (later : ∀ span, Settles (next span) holds parser)
    (keeps : ∀ span after, (next span after).2.Clean → after.Clean) :
    Settles (Parse.join start last >>= next) holds parser := by
  intro clean
  rw [bind_apply] at clean ⊢
  unfold Parse.join Span.join at clean ⊢
  by_cases same : start.file = last.file
  · rw [if_pos same] at clean ⊢
    exact later _ clean
  · rw [if_neg same] at clean
    exact absurd (keeps _ _ clean) (raise_spoils parser _)

/-- Where items and what stands before them stop in front of a token of a kind, so do items after
separators. -/
theorem many_accept {separator : Token} {item : Parse α} (stops : Token → Prop)
    (inner : separator ≠ .endOfInput)
    (reads : ∀ parser, Settles item (fun _ after => stops after.ahead) parser)
    (before : parser.Clean → stops parser.ahead) :
    Settles (many (accept separator) item) (fun _ after => stops after.ahead) parser := by
  intro clean
  induction bound : parser.remaining using Nat.strong_induction_on generalizing parser with
  | _ bound induction =>
    subst bound
    rw [many_unroll, accept_apply inner] at clean ⊢
    by_cases found : parser.ahead = separator
    · simp only [if_pos found, if_true] at clean ⊢
      split at clean
      · rename_i consumed
        rw [if_pos consumed]
        exact induction _ consumed (reads _) clean rfl
      · exact absurd clean (raise_spoils _ _)
    · simp only [if_neg found, Bool.false_eq_true, if_false] at clean ⊢
      exact before clean

theorem accept {token : Token} {next : Bool → Parse β} (inner : token ≠ .endOfInput)
    (taken : ∀ after, Settles (next true) holds after)
    (absent : Settles (next false) holds parser) :
    Settles (Parse.accept token >>= next) holds parser := by
  intro clean
  rw [bind_apply, accept_apply inner] at clean ⊢
  by_cases found : parser.ahead = token
  · rw [if_pos found] at clean ⊢
    exact taken _ clean
  · rw [if_neg found] at clean ⊢
    exact absent clean

/-- A production one level deeper stops in front of the same token. -/
theorem nested {refused : Span → β} {production : Parse β}
    (shallow : ∀ value after depth, holds value after → holds value { after with depth })
    (settles : ∀ parser, Settles production holds parser) :
    Settles (Parse.nested refused production) holds parser := by
  intro clean
  by_cases room : parser.depth < nestingLimit
  · rw [Trails.nested_apply room] at clean ⊢
    have held := settles _ (clean_of_leaveNesting clean)
    simp only [Parser.leaveNesting] at clean ⊢
    split
    · exact shallow _ _ _ held
    · rename_i outermost
      rw [if_neg outermost] at clean
      exact absurd clean (raise_spoils _ _)
  · have refuses : Parse.nested refused production parser = Parse.refuse refused parser := by
      have refused : enterNesting parser = (some parser.refuseNesting.1, parser.refuseNesting.2) := by
        change parser.enterNesting = _
        rw [Parser.enterNesting, if_neg room]
      rw [Parse.nested, bind_apply, refused]
      rfl
    rw [refuses] at clean
    exact absurd clean (refuseNesting_spoils parser)

end Settles

end Parse

namespace Haskell.Grammar

open Offside.Parse Offside.Parser.Detour

variable {inner : Level} {parser : Parser}

section Types

theorem arrows_settle {first : TypeTerm} {later : List TypeTerm} {holds : Parser → Prop}
    (before : parser.Clean → holds parser) :
    Settles (arrows first later) (fun _ after => holds after) parser := by
  induction later generalizing first with
  | nil => exact .pure before
  | cons next later induction =>
    exact .bind induction fun result after held => .join (fun span => .pure held) fun _ _ => id

theorem typeApplication_settles :
    Settles (typeApplication inner) (fun _ after => after.ahead ≠ .properIdentifier) parser := by
  unfold typeApplication
  refine .after fun start after => .after fun head after => ?_
  refine .bind .many_while fun arguments after stops => ?_
  have apart : after.Clean → after.ahead ≠ .properIdentifier := by
    intro clean proper
    have other := stops clean
    rw [proper] at other
    cases other
  split
  · exact .pure apart
  · exact apart

theorem functionType_settles :
    Settles (functionType inner) (fun _ after => after.ahead ≠ .properIdentifier) parser := by
  unfold functionType
  refine .bind typeApplication_settles fun first after stops => ?_
  refine .bind (.many_accept (· ≠ .properIdentifier) (by decide) (fun _ => typeApplication_settles) stops)
    fun later after stops => ?_
  exact arrows_settle stops

theorem typeProduction_settles :
    Settles (typeProduction inner) (fun _ after => after.ahead ≠ .properIdentifier) parser := by
  unfold typeProduction
  refine .after fun start after => .bind functionType_settles fun type after stops => ?_
  refine .accept (by decide) (fun after => ?_) (.pure stops)
  exact .bind functionType_settles fun body after stops => stops

end Types

section Expressions

def OperandEnds (found : Operand) (after : Parser) : Prop :=
  found.2 = none → EndsInBlock found.1 after

variable {value : Expr}

theorem EndsInBlock.of_ahead {after : Parser} (other : after.ahead ≠ .properIdentifier) :
    EndsInBlock value after :=
  fun proper => absurd proper other

/-- A production whose last part is an expression ends as that does. -/
theorem settles_body {production : Parse Expr} {make : Expr → Span → Expr} {start : Span}
    (settles : Settles production EndsInBlock parser)
    (same : ∀ body span, (make body span).endsInBlock = body.endsInBlock) :
    Settles (do let body ← production; return make body (← spanFrom start)) EndsInBlock parser := by
  refine .bind settles fun body after ends => ?_
  intro clean proper
  exact (same body _).trans (ends clean proper)

variable (ends : ∀ parser, Settles inner.expression EndsInBlock parser)
include ends

theorem lambda_settles : Settles (lambda inner) EndsInBlock parser := by
  unfold lambda
  refine .after fun start after => .after fun _ after => .after fun parameters after => ?_
  exact .after fun _ after => settles_body (ends _) fun body span => rfl

theorem letExpression_settles : Settles (letExpression inner) EndsInBlock parser := by
  unfold letExpression
  refine .after fun start after => .after fun _ after => .after fun decls after => ?_
  exact .after fun _ after => settles_body (ends _) fun body span => rfl

theorem conditional_settles : Settles (conditional inner) EndsInBlock parser := by
  unfold conditional
  refine .after fun start after => .after fun _ after => .after fun condition after => ?_
  refine .after fun thenBranch after => settles_body (?_ : Settles (branch inner .kwElse) _ _)
    fun body span => rfl
  exact .after fun _ after => .after fun _ after => ends _

omit ends in
theorem arguments_settles {start : Span} {function : Expr} :
    Settles (arguments inner start function) OperandEnds parser := by
  unfold arguments
  refine .bind .repeatUntil_while fun found after stops => ?_
  have apart : after.Clean → found.2 = none → after.ahead ≠ .properIdentifier := by
    intro clean none proper
    have other := stops clean none
    rw [proper] at other
    cases other
  obtain ⟨arguments, operator⟩ := found
  have ended : ∀ value, Settles (pure (value, operator)) OperandEnds after :=
    fun value => .pure fun clean none => .of_ahead (apart clean none)
  dsimp only
  split
  · exact ended _
  · exact .join (fun span => ended _) fun _ _ => id

theorem operand_settles : Settles (operand inner) OperandEnds parser := by
  have keyword : ∀ {production : Parse Expr}, (∀ parser, Settles production EndsInBlock parser) →
      Settles (do return (← production, none)) OperandEnds parser :=
    fun settles => .bind (settles _) fun value after ends clean _ => ends clean
  unfold operand
  intro clean
  rw [ahead_bind_apply] at clean ⊢
  revert clean
  change Settles _ OperandEnds parser
  split
  · exact keyword fun _ => lambda_settles ends
  · exact keyword fun _ => letExpression_settles ends
  · exact keyword fun _ => conditional_settles ends
  · exact keyword fun _ => .after fun start after => .after fun _ after => .after fun _ after =>
      .after fun _ after => .after fun _ after => fun _ _ => rfl
  · exact keyword fun _ => .after fun start after => .after fun _ after => .after fun _ after =>
      fun _ _ => rfl
  · unfold application
    exact .after fun start after => .after fun function after => arguments_settles

theorem signedOperand_settles : Settles (signedOperand inner) OperandEnds parser := by
  unfold signedOperand
  refine .after fun negated after => ?_
  split
  · refine .after fun start after => .after fun _ after => ?_
    refine .bind (operand_settles ends) fun found after ended => ?_
    exact .join (fun span => .pure ended) fun _ _ => id
  · exact operand_settles ends

omit ends in
/-- An operator is missing in front of a segment only where an operand ended in a block. -/
theorem pendingOperator_settles {first : Expr} {pending : Option Name}
    (before : parser.Clean → OperandEnds (first, pending) parser) :
    Settles (pendingOperator pending) (fun found after => found = none → EndsInBlock first after)
      parser := by
  cases pending with
  | some name => exact .pure fun _ none => nomatch none
  | none =>
    have asked : Settles (qualifiedSymbolFollows Token.isOperator)
        (fun _ after => EndsInBlock first after) parser := by
      intro clean proper
      obtain ⟨stands, -⟩ := qualifiedSymbolFollows_tells qualified_of_operator parser.upcoming
        parser rfl
      exact before (mends (qualifiedSymbolFollows_stays _) clean) rfl
        ((ahead_of_upcoming stands).symm.trans proper)
    change Settles operator? _ parser
    unfold operator?
    intro clean
    rw [ahead_bind_apply] at clean ⊢
    revert clean
    change Settles _ (fun found after => found = none → EndsInBlock first after) parser
    split
    · exact .after fun _ _ => .pure fun _ none => nomatch none
    · refine .bind asked fun follows after ended => ?_
      split
      · exact .after fun _ _ => .pure fun _ none => nomatch none
      · split
        · exact .after fun _ _ => .pure fun _ none => nomatch none
        · exact .pure fun clean _ => ended clean

theorem chainRound_settles {inSection : Bool} {start : Span} {first : Expr} {pending : Option Name}
    (before : parser.Clean → OperandEnds (first, pending) parser) :
    Settles (chainRound inner inSection start first pending)
      (fun found after => OperandEnds (found.elim id id) after) parser := by
  unfold chainRound
  refine .bind (pendingOperator_settles before) fun found after none => ?_
  cases found with
  | none => exact .pure fun clean _ => none clean rfl
  | some operator =>
    have goesOn : ∀ parser, Settles (do
        let second ← signedOperand inner
        let span ← Parse.join start second.1.span
        return (.inr (.binary first operator second.1 span, second.2) : Operand ⊕ Operand))
        (fun found after => OperandEnds (found.elim id id) after) parser := by
      intro parser
      refine .bind (signedOperand_settles ends) fun second after ended => ?_
      exact .join (fun span => .pure ended) fun _ _ => id
    cases inSection with
    | true =>
      refine .after fun closes after => ?_
      split
      · exact .pure fun _ none => by cases none
      · exact goesOn _
    | false => exact .after fun closes after => goesOn _

theorem chainFrom_ends_in_block (inSection : Bool) (start : Span) (first : Expr) (pending : Option Name)
    (before : parser.Clean → OperandEnds (first, pending) parser) :
    Settles (chainFrom inner inSection start first pending) OperandEnds parser := by
  induction bound : chainRemaining pending parser using Nat.strong_induction_on
    generalizing first pending parser with
  | _ bound induction =>
    subst bound
    intro clean
    rw [chainFrom_rounds, bind_apply] at clean ⊢
    have round : Settles (chainRound inner inSection start first pending) _ parser :=
      chainRound_settles ends before
    unfold Settles at round
    generalize chainRound inner inSection start first pending parser = ended at *
    obtain ⟨found, after⟩ := ended
    cases found with
    | inl done => exact round clean
    | inr chain =>
      obtain ⟨chain, next⟩ := chain
      rw [chainLater, chainOn_apply] at clean ⊢
      split at clean
      · rename_i consumed
        rw [if_pos consumed]
        exact induction _ consumed chain next round rfl clean
      · exact absurd clean (raise_spoils _ _)

theorem chain_settles : Settles (chain inner) EndsInBlock parser := by
  unfold chain
  refine .after fun start after => .bind (signedOperand_settles ends) fun found after ended => ?_
  have whole : Settles (chainFrom inner false start found.1 found.2)
      (fun found after => EndsInBlock found.1 after) after := by
    intro clean
    have none := chainFrom_ends_in_block ends false start found.1 found.2 ended clean
    by_cases dangling : (chainFrom inner false start found.1 found.2 after).1.2.isSome = true
    · rcases chainFrom_settles false start found.1 found.2 after dangling with
        ⟨mishap, spoiled, same⟩ | closes
      · rw [same] at clean
        exact absurd clean (mishap.spoils spoiled)
      · exact .of_ahead (by rw [closes]; decide)
    · exact none (by simpa using dangling)
  exact .bind whole fun found after ended => .pure ended

theorem expressionProduction_settles
    (types : ∀ parser, Settles inner.type (fun _ after => after.ahead ≠ .properIdentifier) parser) :
    Settles (expressionProduction inner) EndsInBlock parser := by
  unfold expressionProduction
  refine .after fun start after => .bind (chain_settles ends) fun expr after ended => ?_
  unfold annotated
  refine .accept (by decide) (fun after => ?_) (.pure ended)
  exact .bind (types _) fun type after stops clean => .of_ahead (stops clean)

end Expressions

end Haskell.Grammar

end Offside
