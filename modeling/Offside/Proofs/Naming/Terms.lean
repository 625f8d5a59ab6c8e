import Offside.Proofs.Grammar.Names
import Offside.Proofs.Naming.Traces
import Offside.Proofs.Conduct.Expressions

/-!
Names are traced to tokens. A segment stands where the lookahead stood. A qualifier is read only where
a dot touches it and the token behind the dot touches that, so whatever segment is read next stands
right behind the dot.
-/

namespace Offside

set_option autoImplicit false

open Offside.Parser

variable {known : Token × Span → Prop}

namespace Name

/-- A single segment that stands where a span does, be it missing or not. -/
structure StandsAt (known : Token × Span → Prop) (span : Span) (name : Name) : Prop where
  own : name.IsToken known
  here : name.span = span

theorem standsAt_error (span : Span) : (Name.error span).StandsAt known span := ⟨trivial, rfl⟩

theorem Dotted.start_eq {first : Name} {later : List Name} {start stop : Position}
    (dotted : Dotted known (first :: later) start stop) : start = first.span.start := by
  cases dotted with
  | last => rfl
  | dot => rfl

theorem Dotted.stop_eq {segments : List Name} {start stop : Position}
    (dotted : Dotted known segments start stop) (some : segments ≠ []) :
    stop = (segments.getLast some).span.stop := by
  induction dotted with
  | last name => rfl
  | @dot name later dot stop _ _ rest induction =>
    have more : later ≠ [] := by
      rintro rfl
      cases rest
    rw [List.getLast_cons more]
    exact induction more

end Name

namespace Parser

theorem glimpse {distance : Nat} (near : 1 ≤ distance) (within : distance ≤ reach) (parser : Parser) :
    (parser.peek distance).1 = parser.upcoming.get distance ∧
      (parser.peek distance).2.upcoming = parser.upcoming := by
  constructor
  · exact (peek_eq near within parser).trans (ahead_iterate parser distance)
  · rw [peek_apply near within]
    exact upcoming_fill_many parser _

end Parser

namespace Parse

variable {α β : Type} {tokens : Stream' (Token × Span)}

/-- With these tokens to come a production passes none of them and returns a value of this kind. -/
def Glances (tokens : Stream' (Token × Span)) (production : Parse α) (holds : α → Prop) : Prop :=
  ∀ parser : Parser, parser.upcoming = tokens →
    (production parser).2.upcoming = tokens ∧ holds (production parser).1

namespace Glances

variable {production : Parse α} {next : α → Parse β} {holds : α → Prop} {post : β → Prop}

theorem pure {value : α} (held : holds value) : Glances tokens (pure value) holds :=
  fun _ stands => ⟨stands, held⟩

theorem bind (first : Glances tokens production holds)
    (later : ∀ value, holds value → Glances tokens (next value) post) :
    Glances tokens (production >>= next) post := by
  intro parser stands
  obtain ⟨standsAfter, held⟩ := first parser stands
  exact later _ held _ standsAfter

theorem ite {condition : Prop} [Decidable condition] {first second : Parse α}
    (taken : condition → Glances tokens first holds)
    (missed : ¬condition → Glances tokens second holds) :
    Glances tokens (if condition then first else second) holds := by
  split
  · exact taken ‹_›
  · exact missed ‹_›

theorem isAt {token : Token} :
    Glances tokens (Parse.isAt token) (· = decide ((tokens.get 0).1 = token)) := by
  rintro parser rfl
  exact ⟨rfl, rfl⟩

theorem aheadSpan : Glances tokens Parse.aheadSpan (· = (tokens.get 0).2) := by
  rintro parser rfl
  exact ⟨rfl, rfl⟩

theorem peek {distance : Nat} (near : 1 ≤ distance) (within : distance ≤ reach) :
    Glances tokens (Parse.peek distance) (· = (tokens.get distance).1) := by
  rintro parser rfl
  obtain ⟨told, stands⟩ := glimpse near within parser
  exact ⟨stands, congrArg Prod.fst told⟩

theorem peekSpan {distance : Nat} (near : 1 ≤ distance) (within : distance ≤ reach) :
    Glances tokens (Parse.peekSpan distance) (· = (tokens.get distance).2) := by
  rintro parser rfl
  obtain ⟨told, stands⟩ := glimpse near within parser
  exact ⟨stands, congrArg Prod.snd told⟩

end Glances

end Parse

namespace Haskell.Grammar

open Offside.Parse

def ReadsSegment (known : Token × Span → Prop) (production : Parse Name) : Prop :=
  ∀ parser, YieldsFrom known production (Name.StandsAt known parser.aheadSpan) parser

theorem ReadsSegment.whole {production : Parse Name} (reads : ReadsSegment known production) :
    Yields known production (Name.Whole known) := by
  intro parser sees
  obtain ⟨stands, seesAfter⟩ := reads parser sees
  exact ⟨stands.own.whole, seesAfter⟩

theorem nameAt_readsSegment {token : Token} (isName : token = .identifier ∨ token = .properIdentifier) :
    ReadsSegment known (nameAt token) := by
  intro parser sees
  have inner : token ≠ .endOfInput := by
    rintro rfl
    rcases isName with absurd | absurd
    · cases absurd
    · cases absurd
  have applied : nameAt token parser =
      if parser.ahead = token then (.simple parser.aheadSpan, parser.consume)
      else (.error parser.aheadSpan, parser.fail) := by
    change (Parse.expect token >>= fun stands =>
      if stands = true then pure (.simple parser.aheadSpan)
      else pure (.error parser.aheadSpan) : Parse Name) parser = _
    rw [bind_apply, expect_apply inner]
    split
    · rfl
    · rfl
  rw [applied]
  split
  · rename_i found
    have seen := sees.ahead
    rw [found] at seen
    exact ⟨⟨⟨token, seen, isName⟩, rfl⟩, sees.consume⟩
  · exact ⟨Name.standsAt_error _, sees.returns ((Conduct.nesting 0).fail parser)⟩

theorem variableSymbol_readsSegment : ReadsSegment known variableSymbol := by
  intro parser sees
  have applied : variableSymbol parser =
      if parser.ahead.isVariableOperator then (.operator parser.aheadSpan, parser.consume)
      else (.error parser.aheadSpan, parser.fail) := by
    unfold variableSymbol
    change (if parser.ahead.isVariableOperator = true then _ else _ : Parse Name) parser = _
    split
    · rfl
    · rfl
  rw [applied]
  split
  · exact ⟨⟨⟨_, sees.ahead, ‹_›⟩, rfl⟩, sees.consume⟩
  · exact ⟨Name.standsAt_error _, sees.returns ((Conduct.nesting 0).fail parser)⟩

theorem constructorSymbol_readsSegment : ReadsSegment known constructorSymbol := by
  intro parser sees
  have applied : constructorSymbol parser =
      if parser.ahead.isConstructorOperator then (.special parser.aheadSpan, parser.consume)
      else (.error parser.aheadSpan, parser.fail) := by
    unfold constructorSymbol
    change (if parser.ahead.isConstructorOperator = true then _ else _ : Parse Name) parser = _
    split
    · rfl
    · rfl
  rw [applied]
  split
  · exact ⟨⟨⟨_, sees.ahead, ‹_›⟩, rfl⟩, sees.consume⟩
  · exact ⟨Name.standsAt_error _, sees.returns ((Conduct.nesting 0).fail parser)⟩

theorem symbol_readsSegment : ReadsSegment known symbol := by
  intro parser
  apply YieldsFrom.look
  split
  · exact constructorSymbol_readsSegment parser
  · exact variableSymbol_readsSegment parser

theorem eitherIdentifier_readsSegment : ReadsSegment known eitherIdentifier := by
  intro parser
  apply YieldsFrom.look
  split
  · exact nameAt_readsSegment (.inl rfl) parser
  · exact nameAt_readsSegment (.inr rfl) parser

/-- Looking for a qualifier passes nothing. One that follows has a dot behind it, and behind that the
token that it qualifies, all touching. -/
theorem qualifierFollows_glances (tokens : Stream' (Token × Span)) :
    Glances tokens qualifierFollows fun follows => follows = true →
      (tokens.get 0).1 = .properIdentifier ∧ (tokens.get 1).1 = .dot ∧
        (tokens.get 0).2.stop = (tokens.get 1).2.start ∧
        (tokens.get 1).2.stop = (tokens.get 2).2.start := by
  refine Glances.isAt.bind fun stands proper => .ite (fun _ => .pure (by simp)) fun isProper => ?_
  refine (Glances.peek (by decide) (by decide)).bind fun next second => .ite
    (fun _ => .pure (by simp)) fun isDot => ?_
  refine (Glances.peek (by decide) (by decide)).bind fun _ _ => .ite (fun _ => ?_)
    fun _ => .pure (by simp)
  refine Glances.aheadSpan.bind fun first isFirst => (Glances.peekSpan (by decide) (by decide)).bind
    fun dot dotSpan => (Glances.peekSpan (by decide) (by decide)).bind fun final isFinal => .pure ?_
  intro touching
  obtain ⟨touchesDot, touchesFinal⟩ := of_decide_eq_true touching
  rw [proper] at isProper
  rw [second] at isDot
  rw [isFirst, dotSpan] at touchesDot
  rw [dotSpan, isFinal] at touchesFinal
  exact ⟨by simpa using isProper, by simpa using isDot, touchesDot, touchesFinal⟩

/-- A qualifier that follows is a segment, and its dot links it to what stands behind that. -/
theorem qualifier_links {parser after : Parser} (sees : parser.Sees known)
    (follows : qualifierFollows parser = (true, after)) :
    ∃ name following, qualifier after = (name, following) ∧ following.Sees known ∧
      name.IsToken known ∧
      ∀ {later : List Name} {stop : Position},
        Name.Dotted known later following.aheadSpan.start stop →
          Name.Dotted known (name :: later) parser.aheadSpan.start stop := by
  obtain ⟨stands, touching⟩ := qualifierFollows_glances parser.upcoming parser rfl
  rw [follows] at stands touching
  obtain ⟨proper, isDot, touchesDot, touchesNext⟩ := touching rfl
  have here : after.aheadSpan = parser.aheadSpan :=
    congrArg (fun tokens => (Stream'.get tokens 0).2) stands
  have next : after.consume.consume.aheadSpan = (parser.upcoming.get 2).2 := by
    rw [← stands]
    exact congrArg Prod.snd (ahead_iterate after 2)
  have own : Name.IsToken known (.simple after.aheadSpan) := by
    have seen := sees.ahead
    rw [show parser.ahead = .properIdentifier from proper, ← here] at seen
    exact ⟨_, seen, .inr rfl⟩
  have dot : known (.dot, (parser.upcoming.get 1).2) := by
    rw [← isDot]
    exact sees 1
  refine ⟨_, _, rfl, (sees.of_same stands).consume.consume, own, fun dotted => ?_⟩
  rw [next, ← touchesNext] at dotted
  rw [← here]
  exact .dot dot ((congrArg Span.stop here).trans touchesDot) dotted

/-- By induction on the tokens that remain: whatever stands behind the qualifiers that were read, there
are only dots between them and it. -/
theorem qualifiers_lead (parser : Parser) (sees : parser.Sees known) :
    (∀ segment ∈ (many qualifierFollows qualifier parser).1, segment.IsToken known) ∧
      (many qualifierFollows qualifier parser).2.Sees known ∧
      ∀ name : Name,
        name.span.start = (many qualifierFollows qualifier parser).2.aheadSpan.start →
          Name.Dotted known ((many qualifierFollows qualifier parser).1 ++ [name])
            parser.aheadSpan.start name.span.stop := by
  have alone : ∀ {start : Position} (name : Name), name.span.start = start →
      Name.Dotted known [name] start name.span.stop := by
    rintro _ name rfl
    exact .last name
  generalize bounded : parser.remaining = bound
  induction bound using Nat.strong_induction_on generalizing parser with
  | _ bound induction =>
    have stands := (qualifierFollows_glances parser.upcoming parser rfl).1
    rw [many_unroll]
    rcases follows : qualifierFollows parser with ⟨goes, after⟩
    rw [follows] at stands
    cases goes with
    | false =>
      refine ⟨by simp, sees.of_same stands, fun name starts => alone name ?_⟩
      exact starts.trans (congrArg (fun tokens => (Stream'.get tokens 0).2.start) stands)
    | true =>
      obtain ⟨name, following, made, seesNext, own, links⟩ := qualifier_links sees follows
      rw [if_pos rfl, made, bounded]
      by_cases progress : following.remaining < bound
      · rw [if_pos progress]
        obtain ⟨each, seesLast, lead⟩ := induction _ progress following seesNext rfl
        refine ⟨List.forall_mem_cons.2 ⟨own, each⟩, seesLast, fun last starts => ?_⟩
        exact links (lead last starts)
      · rw [if_neg progress]
        refine ⟨List.forall_mem_cons.2 ⟨own, by simp⟩, seesNext, fun last starts => ?_⟩
        exact links (alone last starts)

/-- Segments make a name that is traced, and one that is linked when dots link them. -/
theorem ofSegments_formed {segments : List Name} (some : segments ≠ [])
    (each : ∀ segment ∈ segments, segment.IsToken known) :
    Yields known (ofSegments segments) fun made => made.WellFormed known ∧
      ((∃ start stop, Name.Dotted known segments start stop) → made.Linked known) := by
  refine .orRaise (fun made result => ?_) ⟨Name.formed_error _, fun _ => trivial⟩
  match segments, some with
  | [segment], _ =>
    have own := each segment List.mem_cons_self
    rw [← Except.ok.inj result]
    exact ⟨own.formed, fun _ => own.linked⟩
  | first :: second :: later, _ =>
    rw [ofSegments_several, Span.join] at result
    split at result
    · rw [← Except.ok.inj result]
      refine ⟨Name.formed_qualified (by simp) each, ?_⟩
      rintro ⟨start, stop, dotted⟩
      have starts := dotted.start_eq
      have stops := dotted.stop_eq (List.cons_ne_nil _ _)
      rw [List.getLast_cons (List.cons_ne_nil second later)] at stops
      rw [starts, stops] at dotted
      exact dotted
    · cases result

/-- Qualifiers and a last segment that stands behind them make a whole name. -/
theorem lastSegment_whole {last : Parse Name} (reads : ReadsSegment known last)
    {qualifiers : List Name} {start : Position} {parser : Parser}
    (each : ∀ segment ∈ qualifiers, segment.IsToken known)
    (lead : ∀ name : Name, name.span.start = parser.aheadSpan.start →
      Name.Dotted known (qualifiers ++ [name]) start name.span.stop) :
    YieldsFrom known (do let name ← last; ofSegments (qualifiers ++ [name]))
      (Name.Whole known) parser := by
  refine (reads parser).bind fun name stands => ?_
  have segments : ∀ segment ∈ qualifiers ++ [name], segment.IsToken known :=
    List.forall_mem_append.2 ⟨each, by simpa using stands.own⟩
  refine (ofSegments_formed (by simp) segments).mono fun made held => ⟨held.1, held.2 ?_⟩
  exact ⟨start, name.span.stop, lead name (congrArg Span.start stands.here)⟩

theorem qualifiedBy_whole {last : Parse Name} (reads : ReadsSegment known last) :
    Yields known (qualifiedBy last) (Name.Whole known) := by
  intro parser sees
  obtain ⟨each, seesAfter, lead⟩ := qualifiers_lead parser sees
  exact lastSegment_whole reads each lead seesAfter

theorem qualifiedIdentifier_whole : Yields known qualifiedIdentifier (Name.Whole known) :=
  qualifiedBy_whole eitherIdentifier_readsSegment

theorem variableIdentifier_whole : Yields known variableIdentifier (Name.Whole known) :=
  (nameAt_readsSegment (.inl rfl)).whole

theorem properIdentifier_whole : Yields known properIdentifier (Name.Whole known) :=
  (nameAt_readsSegment (.inr rfl)).whole

/-- A name between a mark that is passed unseen and one that is looked for. -/
theorem enclosedName_whole {name : Parse Name} {mark : Token}
    (whole : Yields known name (Name.Whole known)) :
    Yields known
      (do
        consume
        let name ← name
        let _ ← expectOrSkipTo mark
        return name)
      (Name.Whole known) :=
  .after .consume fun _ => whole.bind fun _ held => .after (.expectOrSkipTo _) fun _ => .pure held

theorem parenthesizedSymbol_whole {last : Parse Name} (reads : ReadsSegment known last) :
    Yields known (parenthesizedSymbol last) (Name.Whole known) :=
  enclosedName_whole (qualifiedBy_whole reads)

theorem quotedOperator_whole : Yields known quotedOperator (Name.Whole known) :=
  enclosedName_whole qualifiedIdentifier_whole

theorem variableName_whole : Yields known variableName (Name.Whole known) :=
  .look fun _ => .ite (parenthesizedSymbol_whole variableSymbol_readsSegment)
    variableIdentifier_whole

theorem variableOrConstructor_whole : Yields known variableOrConstructor (Name.Whole known) := by
  refine .look fun token => ?_
  split
  · exact parenthesizedSymbol_whole symbol_readsSegment
  · exact properIdentifier_whole
  · exact variableIdentifier_whole

/-- Blanks may stand around the dots in the name of a module, so that it need not be linked. -/
theorem moduleName_formed : Yields known moduleName (Name.WellFormed known) := by
  have segment : Yields known properIdentifier (Name.IsToken known) := by
    intro parser sees
    obtain ⟨stands, seesAfter⟩ := nameAt_readsSegment (.inr rfl) parser sees
    exact ⟨stands.own, seesAfter⟩
  refine segment.bind fun first held => ?_
  refine (Yields.many ?_ (.after .consume fun _ => segment)).bind fun later heldLater => ?_
  · exact .look fun _ => .ite ((Agrees.peek 1).bind fun _ => .pure _) (.pure _)
  · exact (ofSegments_formed (List.cons_ne_nil _ _)
      (List.forall_mem_cons.2 ⟨held, heldLater⟩)).mono fun _ made => made.1

theorem qualifiedTerm_whole : Yields known qualifiedTerm fun made => made.name.Whole known := by
  intro parser sees
  obtain ⟨each, seesAfter, lead⟩ := qualifiers_lead parser sees
  suffices read : YieldsFrom known
      (if (many qualifierFollows qualifier parser).2.ahead.isOperator then
        Term.operator <$> (do
          let name ← symbol
          ofSegments ((many qualifierFollows qualifier parser).1 ++ [name]))
      else
        Term.operand <$> (do
          let name ← eitherIdentifier
          ofSegments ((many qualifierFollows qualifier parser).1 ++ [name])))
      (fun made => made.name.Whole known) (many qualifierFollows qualifier parser).2 from
    read seesAfter
  split
  · exact lastSegment_whole symbol_readsSegment each lead
  · exact lastSegment_whole eitherIdentifier_readsSegment each lead

def OptionallyWhole (known : Token × Span → Prop) (made : Option Name) : Prop :=
  ∀ found ∈ made, found.Whole known

theorem none_optionallyWhole : OptionallyWhole known none := fun _ member => nomatch member

theorem some_optionallyWhole {production : Parse Name}
    (whole : Yields known production (Name.Whole known)) :
    Yields known (do return some (← production)) (OptionallyWhole known) :=
  whole.bind fun _ held => .pure fun _ member => Option.some.inj member ▸ held

theorem operator?_whole : Yields known operator? (OptionallyWhole known) :=
  .look fun _ => .ite (some_optionallyWhole symbol_readsSegment.whole) <|
    .after (qualifiedSymbolFollows_stays _) fun _ =>
      .ite (some_optionallyWhole (qualifiedBy_whole symbol_readsSegment)) <|
        .ite (some_optionallyWhole quotedOperator_whole) (.pure none_optionallyWhole)

theorem variableOperator?_whole : Yields known variableOperator? (OptionallyWhole known) :=
  .look fun _ => .ite (some_optionallyWhole variableSymbol_readsSegment.whole) <|
    .after (quotedFollows_stays _) fun _ =>
      .ite (some_optionallyWhole quotedOperator_whole) (.pure none_optionallyWhole)

theorem constructorOperator?_whole : Yields known constructorOperator? (OptionallyWhole known) :=
  .look fun _ => .ite (some_optionallyWhole constructorSymbol_readsSegment.whole) <|
    .after (qualifiedSymbolFollows_stays _) fun _ =>
      .ite (some_optionallyWhole (qualifiedBy_whole constructorSymbol_readsSegment)) <|
        .after (quotedFollows_stays _) fun _ =>
          .ite (some_optionallyWhole quotedOperator_whole) (.pure none_optionallyWhole)

end Haskell.Grammar

/-!
Types and patterns are traced to tokens. A constructor that is written with brackets starts where the
first of them does, so a production that may make one is followed from a state with the bracket ahead.
-/

theorem Span.IsBracketed.of_start {span other : Span} (bracketed : span.IsBracketed known)
    (same : other.start = span.start) : other.IsBracketed known := by
  obtain ⟨token, opening, seen, opens, starts⟩ := bracketed
  exact ⟨token, opening, seen, opens, starts.trans same.symm⟩

theorem Parser.Sees.bracketed {parser : Parser} (sees : parser.Sees known)
    (opened : parser.ahead = .openParen ∨ parser.ahead = .openBracket) :
    parser.aheadSpan.IsBracketed known :=
  ⟨parser.ahead, parser.aheadSpan, sees.ahead, opened, rfl⟩

namespace Name

theorem Whole.constructor {found : Name} (whole : found.Whole known) :
    TypeTerm.WellFormed known (.constructor found) :=
  .intro ⟨trivial, whole.linked⟩ (by simpa using whole.formed)

theorem Whole.typeVariable {found : Name} (whole : found.Whole known) :
    TypeTerm.WellFormed known (.typeVariable found) :=
  .intro ⟨trivial, whole.linked⟩ (by simpa using whole.formed)

theorem Whole.identifier {found : Name} (whole : found.Whole known) :
    Expr.WellFormed known (.identifier found) :=
  .intro ⟨trivial, whole.linked⟩ (by simpa using whole.formed)

theorem Whole.asPattern {found : Name} {pattern : Expr} {span : Span} (whole : found.Whole known)
    (formed : pattern.WellFormed known) : Expr.WellFormed known (.asPattern found pattern span) :=
  .intro ⟨trivial, whole.linked⟩ (by simpa using And.intro whole.formed formed)

theorem Whole.binary {left right : Expr} {operator : Name} {span : Span}
    (whole : operator.Whole known) (formedLeft : left.WellFormed known)
    (formedRight : right.WellFormed known) : Expr.WellFormed known (.binary left operator right span) :=
  .intro ⟨trivial, whole.linked⟩ (by simpa using ⟨formedLeft, whole.formed, formedRight⟩)

end Name

namespace TypeTerm

theorem formed_error (span : Span) : TypeTerm.WellFormed known (.error span) :=
  Node.wellFormed_leaf ⟨trivial, trivial⟩ rfl

end TypeTerm

namespace Expr

theorem formed_error (span : Span) : Expr.WellFormed known (.error span) :=
  Node.wellFormed_leaf ⟨trivial, trivial⟩ rfl

theorem formed_unit (span : Span) : Expr.WellFormed known (.unit span) :=
  Node.wellFormed_leaf ⟨trivial, trivial⟩ rfl

theorem formed_application {function : Expr} {arguments : List Expr} {span : Span}
    (some : arguments ≠ []) (head : function.WellFormed known)
    (rest : ∀ argument ∈ arguments, argument.WellFormed known) :
    Expr.WellFormed known (.application function arguments span) :=
  .intro ⟨List.length_pos_iff.2 some, trivial⟩ (by simpa using And.intro head rest)

theorem formed_tuple {first : Expr} {later : List Expr} {span : Span} (some : later ≠ [])
    (head : first.WellFormed known) (rest : ∀ element ∈ later, element.WellFormed known) :
    Expr.WellFormed known (.tuple (first :: later) span) :=
  .intro ⟨Nat.succ_le_succ (List.length_pos_iff.2 some), trivial⟩ (by simpa using And.intro head rest)

theorem formed_list {elements : List Expr} {span : Span}
    (each : ∀ element ∈ elements, element.WellFormed known) : Expr.WellFormed known (.list elements span) :=
  .intro ⟨trivial, trivial⟩ (by simpa using each)

theorem formed_parenthesized {inner : Expr} {span : Span} (formed : inner.WellFormed known) :
    Expr.WellFormed known (.parenthesized inner span) :=
  .intro ⟨trivial, trivial⟩ (by simpa using formed)

theorem formed_negation {operand : Expr} {span : Span} (formed : operand.WellFormed known) :
    Expr.WellFormed known (.negation operand span) :=
  .intro ⟨trivial, trivial⟩ (by simpa using formed)

end Expr

namespace Haskell.Grammar

open Offside.Parse

/-- The productions of a level make traced trees. Parentheses do when one is ahead. -/
structure Level.Forms (known : Token × Span → Prop) (inner : Level) : Prop where
  expression : Yields known inner.expression (Expr.WellFormed known)
  pattern : Yields known inner.pattern (Expr.WellFormed known)
  type : Yields known inner.type (TypeTerm.WellFormed known)
  expressionAtom : Yields known inner.expressionAtom (Expr.WellFormed known)
  patternAtom : Yields known inner.patternAtom (Expr.WellFormed known)
  parentheses : ∀ parser : Parser, parser.ahead = .openParen →
    YieldsFrom known inner.parentheses (Expr.WellFormed known) parser
  brackets : Yields known inner.brackets (Expr.WellFormed known)
  declBlock : Yields known inner.declBlock fun made =>
    IsLocalBlock made ∧ ∀ found ∈ made, found.WellFormed known
  alternativeBlock : Yields known inner.alternativeBlock fun made =>
    ∀ found ∈ made, found.WellFormed known
  statementBlock : Yields known inner.statementBlock fun made => ∀ found ∈ made, found.WellFormed known

theorem rejected_yields {α : Type} {holds : α → Prop} {made : Span → α}
    (held : ∀ span, holds (made span)) : Yields known (do return made (← reject)) holds :=
  .after reject_stays fun span => .pure (held span)

section Types

variable {inner : Level} (forms : inner.Forms known)

include forms

theorem parenthesizedType_formed {parser : Parser} (opened : parser.ahead = .openParen) :
    YieldsFrom known (parenthesizedType inner) (TypeTerm.WellFormed known) parser := by
  apply YieldsFrom.look
  intro sees
  have bracketed := sees.bracketed (.inl opened)
  refine Yields.after .consume (fun _ => .after (.accept _) fun _ => .ite ?_ <| .look fun _ =>
    .look fun _ => .ite ?_ ?_) parser sees
  · exact .look fun span => .pure (Node.wellFormed_leaf ⟨trivial, trivial⟩ rfl)
  · refine .after (.skipAll _) fun _ => .after (.accept _) fun _ => .after (.expectOrSkipTo _)
      fun _ => ?_
    exact .spanFrom fun _ same => .pure (Name.whole_special (bracketed.of_start same)).constructor
  · refine forms.type.bind fun first held =>
      .manyCalled (accept_called (by decide)) (.accept _) forms.type (fun later some heldLater => ?_)
        (.after (.expectOrSkipTo _) fun _ => .pure held)
    refine .after (.expectOrSkipTo _) fun _ => .look fun span => .pure (.intro ⟨?_, trivial⟩ ?_)
    · exact Nat.succ_le_succ (List.length_pos_iff.2 some)
    · simpa using And.intro held heldLater

theorem listType_formed {parser : Parser} (opened : parser.ahead = .openBracket) :
    YieldsFrom known (listType inner) (TypeTerm.WellFormed known) parser := by
  apply YieldsFrom.look
  intro sees
  have bracketed := sees.bracketed (.inr opened)
  refine Yields.after .consume (fun _ => .after (.accept _) fun _ => .ite ?_ ?_) parser sees
  · exact .spanFrom fun _ same => .pure (Name.whole_special (bracketed.of_start same)).constructor
  · refine forms.type.bind fun element held => .after (.expectOrSkipTo _) fun _ =>
      .look fun span => .pure ?_
    exact .intro ⟨trivial, trivial⟩ (by simpa using held)

theorem typeAtom_formed : Yields known (typeAtom inner) (TypeTerm.WellFormed known) := by
  intro parser
  apply YieldsFrom.look
  split
  · exact (qualifiedIdentifier_whole.bind fun _ whole => .pure whole.constructor) parser
  · exact (variableIdentifier_whole.bind fun _ whole => .pure whole.typeVariable) parser
  · exact parenthesizedType_formed forms ‹_›
  · exact listType_formed forms ‹_›
  · exact rejected_yields TypeTerm.formed_error parser

theorem typeApplication_formed : Yields known (typeApplication inner) (TypeTerm.WellFormed known) := by
  refine .look fun start => (typeAtom_formed forms).bind fun head held => ?_
  refine (Yields.many (.look fun _ => .pure _) (typeAtom_formed forms)).bind fun later heldLater => ?_
  refine .branch (fun _ => .pure held) fun some => .look fun span => .pure ?_
  exact .intro ⟨List.length_pos_iff.2 (by simpa using some), trivial⟩
    (by simpa using And.intro held heldLater)

omit forms in
theorem arrows_formed {first : TypeTerm} {later : List TypeTerm} (held : first.WellFormed known)
    (heldLater : ∀ next ∈ later, next.WellFormed known) :
    Yields known (arrows first later) (TypeTerm.WellFormed known) := by
  induction later generalizing first with
  | nil => exact .pure held
  | cons next later induction =>
    obtain ⟨heldNext, heldRest⟩ := List.forall_mem_cons.1 heldLater
    refine (induction heldNext heldRest).bind fun result heldResult =>
      .after (.join _ _) fun span => .pure ?_
    exact .intro ⟨trivial, trivial⟩ (by simpa using And.intro held heldResult)

theorem functionType_formed : Yields known (functionType inner) (TypeTerm.WellFormed known) :=
  (typeApplication_formed forms).bind fun _ held =>
    (Yields.many (.accept _) (typeApplication_formed forms)).bind fun _ heldLater =>
      arrows_formed held heldLater

theorem typeProduction_formed : Yields known (typeProduction inner) (TypeTerm.WellFormed known) := by
  refine .look fun start => (functionType_formed forms).bind fun context held =>
    .after (.accept _) fun _ => .ite ?_ (.pure held)
  refine (functionType_formed forms).bind fun body heldBody => .look fun span => .pure ?_
  exact .intro ⟨trivial, trivial⟩ (by simpa using And.intro held heldBody)

end Types

section Patterns

variable {inner : Level}

theorem literal_formed : Yields known literal (Expr.WellFormed known) := by
  refine .look fun token => ?_
  split
  · exact .look fun span => .after .consume fun _ => .pure (Node.wellFormed_leaf ⟨trivial, trivial⟩ rfl)
  · exact rejected_yields Expr.formed_error

theorem tupleConstructor_formed {start : Span} (bracketed : start.IsBracketed known) :
    Yields known (tupleConstructor start) (Expr.WellFormed known) :=
  .after (.skipAll _) fun _ => .after (.expectOrSkipTo _) fun _ => .spanFrom fun _ same =>
    .pure (Name.whole_special (bracketed.of_start same)).identifier

theorem aliasAfter_formed {atom : Parse Expr} (formed : Yields known atom (Expr.WellFormed known))
    (start : Span) {found : Name} (whole : found.Whole known) :
    Yields known (aliasAfter atom start found) (Expr.WellFormed known) :=
  .after (.accept _) fun _ => .ite
    (formed.bind fun _ held => .look fun _ => .pure (whole.asPattern held)) (.pure whole.identifier)

theorem variableOrAlias_formed {atom : Parse Expr} (formed : Yields known atom (Expr.WellFormed known)) :
    Yields known (variableOrAlias atom) (Expr.WellFormed known) :=
  .look fun start => variableIdentifier_whole.bind fun _ whole => aliasAfter_formed formed start whole

theorem lazyPattern_formed {atom : Parse Expr} (formed : Yields known atom (Expr.WellFormed known)) :
    Yields known (lazyPattern atom) (Expr.WellFormed known) :=
  .look fun _ => .after .consume fun _ => formed.bind fun _ held => .look fun _ =>
    .pure (.intro ⟨trivial, trivial⟩ (by simpa using held))

theorem wildcard_formed : Yields known wildcard (Expr.WellFormed known) :=
  .look fun _ => .after .consume fun _ => .pure (Node.wellFormed_leaf ⟨trivial, trivial⟩ rfl)

theorem numeral_formed : Yields known numeral (Expr.WellFormed known) := by
  refine .look fun token => ?_
  split
  · exact literal_formed
  · exact literal_formed
  · exact rejected_yields Expr.formed_error

theorem negativeLiteral_formed : Yields known negativeLiteral (Expr.WellFormed known) :=
  .look fun _ => .after .consume fun _ => numeral_formed.bind fun _ held => .look fun _ =>
    .pure (Expr.formed_negation held)

/-- A tuple has a term after a comma, since its terms are read because one is ahead. -/
theorem enclosed_formed {term : Parse Expr} (formed : Yields known term (Expr.WellFormed known))
    (start : Span) {first : Expr} (held : first.WellFormed known) :
    Yields known (enclosed term start first) (Expr.WellFormed known) :=
  .manyCalled (accept_called (by decide)) (.accept _) formed
    (fun _ some heldLater => .after (.expectOrSkipTo _) fun _ => .look fun _ =>
      .pure (Expr.formed_tuple some held heldLater))
    (.after (.expectOrSkipTo _) fun _ => .look fun _ => .pure (Expr.formed_parenthesized held))

theorem listEnd_formed (start : Span) {elements : List Expr}
    (held : ∀ element ∈ elements, element.WellFormed known) :
    Yields known (listEnd start elements) (Expr.WellFormed known) :=
  .after (.expectOrSkipTo _) fun _ => .look fun _ => .pure (Expr.formed_list held)

section

variable (forms : inner.Forms known)

include forms

theorem parenthesizedPattern_formed {parser : Parser} (opened : parser.ahead = .openParen) :
    YieldsFrom known (parenthesizedPattern inner) (Expr.WellFormed known) parser := by
  apply YieldsFrom.look
  intro sees
  have bracketed := sees.bracketed (.inl opened)
  refine Yields.after .consume (fun _ => .after (.accept _) fun _ => .ite ?_ <| .look fun _ =>
    .ite ?_ <| .after constructorThenParen_stays fun _ => .ite ?_ ?_) parser sees
  · exact .look fun span => .pure (Expr.formed_unit span)
  · exact tupleConstructor_formed bracketed
  · exact constructorSymbol_readsSegment.whole.bind fun _ whole => .after .consume fun _ =>
      .pure whole.identifier
  · exact forms.pattern.bind fun _ held => enclosed_formed forms.pattern _ held

theorem listPattern_formed : Yields known (listPattern inner) (Expr.WellFormed known) :=
  .look fun start => .after .consume fun _ => .look fun _ => .ite (listEnd_formed start (by simp))
    ((Yields.separated forms.pattern).bind fun _ held => listEnd_formed start held.2)

theorem patternAtom_formed : Yields known (patternAtom inner) (Expr.WellFormed known) := by
  intro parser
  apply YieldsFrom.look
  split
  · exact variableOrAlias_formed forms.patternAtom parser
  · exact (qualifiedIdentifier_whole.bind fun _ whole => .pure whole.identifier) parser
  · exact wildcard_formed parser
  · exact lazyPattern_formed forms.patternAtom parser
  · exact literal_formed parser
  · exact literal_formed parser
  · exact literal_formed parser
  · exact literal_formed parser
  · exact parenthesizedPattern_formed forms ‹_›
  · exact listPattern_formed forms parser
  · exact rejected_yields Expr.formed_error parser

theorem patternAtoms_formed :
    Yields known (patternAtoms inner) fun made => ∀ found ∈ made, found.WellFormed known :=
  .many (.look fun _ => .pure _) (patternAtom_formed forms)

theorem constructorPattern_formed (start : Span) {constructor : Expr}
    (held : constructor.WellFormed known) :
    Yields known (constructorPattern inner start constructor) (Expr.WellFormed known) := by
  exact (Yields.many argumentFollows_stays (patternAtom_formed forms)).bind fun _ heldAll =>
    .branch (fun _ => .pure held) fun some => .look fun _ =>
      .pure (Expr.formed_application (by simpa using some) held heldAll)

theorem operandPattern_formed : Yields known (operandPattern inner) (Expr.WellFormed known) := by
  refine .look fun start => .look fun token => ?_
  split
  · exact negativeLiteral_formed
  · exact qualifiedIdentifier_whole.bind fun _ whole =>
      constructorPattern_formed forms start whole.identifier
  · exact .after parenthesizedConstructorFollows_stays fun _ => .ite
      ((patternAtom_formed forms).bind fun _ held => constructorPattern_formed forms start held)
      (patternAtom_formed forms)
  · exact patternAtom_formed forms

theorem patternAfter_formed (start : Span) {left : Expr} (held : left.WellFormed known) :
    Yields known (patternAfter inner start left) (Expr.WellFormed known) := by
  refine constructorOperator?_whole.bind fun found whole => ?_
  cases found with
  | some operator =>
    exact forms.pattern.bind fun right heldRight => .look fun span =>
      .pure ((whole operator rfl).binary held heldRight)
  | none => exact .pure held

theorem patternProduction_formed : Yields known (patternProduction inner) (Expr.WellFormed known) :=
  .look fun start => (operandPattern_formed forms).bind fun _ held =>
    patternAfter_formed forms start held

end

end Patterns

end Haskell.Grammar

end Offside
