import Offside.Proofs.Parser.Conduct
import Offside.Proofs.Parser.Texts
import Offside.Proofs.Tree.Marks

/-!
What productions read. A production that ends in a clean state, with nothing reported and no fault,
has passed tokens that its value spells: each of them stands behind one mark of the value, in the
order of the text, or is of a kind that leaves no mark. The rules below follow the shape of a
production as those for how it ends do. A state that is not clean never becomes clean again, so
nothing is promised where something went wrong.
-/

namespace Offside

set_option autoImplicit false

open Offside.Lexical

/-- A constructor written with brackets: nothing but commas and an arrow between them. -/
structure IsBracketed (opening : Token × Span) (middle : List (Token × Span))
    (closing : Token × Span) : Prop where
  opening : opening.1 = .openParen ∨ opening.1 = .openBracket
  middle : ∀ found ∈ middle, found.1 = .comma ∨ found.1 = .arrow
  closing : closing.1 = .closeParen ∨ closing.1 = .closeBracket

theorem IsBracketed.middle_unmarked {opening closing : Token × Span}
    {middle : List (Token × Span)} (brackets : IsBracketed opening middle closing) :
    ∀ found ∈ middle, Leaf.ofToken? found = none := by
  intro found member
  rcases brackets.middle found member with comma | arrow
  · simp [Leaf.ofToken?, comma, Leaf.ofKind?]
  · simp [Leaf.ofToken?, arrow, Leaf.ofKind?]

theorem IsBracketed.closing_unmarked {opening closing : Token × Span}
    {middle : List (Token × Span)} (brackets : IsBracketed opening middle closing) :
    ∀ found ∈ [closing], Leaf.ofToken? found = none := by
  intro found member
  rw [List.mem_singleton.1 member]
  rcases brackets.closing with parenthesis | bracket
  · simp [Leaf.ofToken?, parenthesis, Leaf.ofKind?]
  · simp [Leaf.ofToken?, bracket, Leaf.ofKind?]

inductive Spells (texts : Position → Option Lexeme) : List Mark → List (Token × Span) → Prop
  | nil : Spells texts [] []
  | silent {found : Token × Span} {marks : List Mark} {tokens : List (Token × Span)}
      (unmarked : Leaf.ofToken? found = none) (later : Spells texts marks tokens) :
      Spells texts marks (found :: tokens)
  | leaf {found : Token × Span} {leaf : Leaf} {marks : List Mark} {tokens : List (Token × Span)}
      (same : Leaf.ofToken? found = some leaf) (later : Spells texts marks tokens) :
      Spells texts (.leaf leaf :: marks) (found :: tokens)
  /-- A minus sign or a dot that is used as an operator. -/
  | sign {found : Token × Span} {marks : List Mark} {tokens : List (Token × Span)}
      (isSign : found.1 = .minus ∨ found.1 = .dot) (later : Spells texts marks tokens) :
      Spells texts (.leaf (.name found.2) :: marks) (found :: tokens)
  | word {found : Token × Span} {word : Word} {marks : List Mark} {tokens : List (Token × Span)}
      (spelled : word.Spelled texts found) (later : Spells texts marks tokens) :
      Spells texts (.word word :: marks) (found :: tokens)
  | bracketed {opening closing : Token × Span} {middle : List (Token × Span)} {span : Span}
      {marks : List Mark} {tokens : List (Token × Span)}
      (brackets : IsBracketed opening middle closing) (start : span.start = opening.2.start)
      (later : Spells texts marks tokens) :
      Spells texts (.leaf (.name span) :: marks) (opening :: (middle ++ closing :: tokens))
  | skipped {passed : List (Token × Span)} {marks : List Mark} {tokens : List (Token × Span)}
      (later : Spells texts marks tokens) : Spells texts (.skipped :: marks) (passed ++ tokens)

namespace Spells

variable {texts : Position → Option Lexeme} {first second : List Mark}
  {passed later : List (Token × Span)}

theorem append (before : Spells texts first passed) (after : Spells texts second later) :
    Spells texts (first ++ second) (passed ++ later) := by
  induction before with
  | nil => exact after
  | silent unmarked _ induction => exact .silent unmarked induction
  | leaf same _ induction => exact .leaf same induction
  | sign isSign _ induction => exact .sign isSign induction
  | word spelled _ induction => exact .word spelled induction
  | bracketed brackets start _ induction =>
    have whole := Spells.bracketed brackets start induction
    simpa using whole
  | skipped _ induction =>
    rw [List.append_assoc]
    exact .skipped induction

theorem silent_all (unmarked : ∀ found ∈ passed, Leaf.ofKind? found.1 = none) :
    Spells texts [] passed := by
  induction passed with
  | nil => exact .nil
  | cons found passed induction =>
    rw [List.forall_mem_cons] at unmarked
    exact .silent (by simp [Leaf.ofToken?, unmarked.1]) (induction unmarked.2)

end Spells

/-- Nothing was reported before if nothing was reported later. -/
theorem Context.Continues.diagnostics_eq_empty {earlier later : Context}
    (continued : earlier.Continues later) (empty : later.diagnostics = #[]) :
    earlier.diagnostics = #[] := by
  apply Array.eq_empty_of_size_eq_zero
  apply Classical.byContradiction
  intro some
  have member := continued.diagnostics _ (Array.getElem_mem (Nat.pos_of_ne_zero some))
  rw [empty] at member
  simp at member

namespace Parser

structure Clean (parser : Parser) : Prop where
  diagnostics : parser.context.diagnostics = #[]
  unreported : parser.reportedAt = none
  unharmed : parser.fault = none

variable {files : FileId → Prop}

theorem leaveNesting_keeps (parser : Parser) :
    parser.leaveNesting.rest = parser.rest ∧ parser.leaveNesting.context = parser.context ∧
      parser.leaveNesting.reportedAt = parser.reportedAt := by
  unfold Parser.leaveNesting
  split
  · exact ⟨rfl, rfl, rfl⟩
  · exact ⟨rfl, rfl, rfl⟩

/-- While nothing is among the diagnostics nothing is remembered as reported. -/
theorem Run.reportedAt_eq {before after : Parser} {passed : List (Token × Span)}
    (run : Run files before passed after) (empty : after.context.diagnostics = #[]) :
    after.reportedAt = before.reportedAt := by
  induction run with
  | refl parser => rfl
  | trans _ next first second =>
    have between := next.effect.context.diagnostics_eq_empty empty
    exact (second empty).trans (first between)
  | consume _ => exact (consume_keeps _).2.2.2
  | fill _ => rfl
  | report parser =>
    rcases reportUnexpected_cases parser with same | reported
    · rw [same]
    · rw [reported] at empty
      have member := parser.context.mem_report .unexpectedToken parser.aheadSpan
      rw [show (parser.context.report .unexpectedToken parser.aheadSpan).diagnostics = #[]
        from empty] at member
      simp at member
  | consumeReporting _ => exact (consume_keeps _).2.2.2
  | refuse _ => rfl
  | @nested parser final passed _ run inside =>
    rw [(leaveNesting_keeps final).2.1] at empty
    exact (leaveNesting_keeps final).2.2.trans (inside empty)
  | raise _ _ _ => rfl

theorem Run.clean {before after : Parser} {passed : List (Token × Span)}
    (run : Run files before passed after) (clean : after.Clean) : before.Clean where
  diagnostics := run.effect.context.diagnostics_eq_empty clean.diagnostics
  unreported := (run.reportedAt_eq clean.diagnostics).symm.trans clean.unreported
  unharmed := run.effect.fault clean.unharmed

theorem Leads.clean {before after : Parser} (leads : Leads files before after)
    (clean : after.Clean) : before.Clean := by
  obtain ⟨passed, run⟩ := leads
  exact run.clean clean

theorem reportUnexpected_spoils (parser : Parser) : ¬parser.reportUnexpected.Clean := by
  intro clean
  unfold Parser.reportUnexpected at clean
  split at clean
  · rename_i before
    rcases before with same | ended
    · rw [clean.unreported] at same
      cases same
    · simp [endAlreadyReported, clean.diagnostics] at ended
  · cases clean.unreported

theorem report_spoils {parser : Parser} {problem : Problem} {span : Span} :
    ¬({ parser with context := parser.context.report problem span } : Parser).Clean := by
  intro clean
  have member := parser.context.mem_report problem span
  rw [show (parser.context.report problem span).diagnostics = #[] from clean.diagnostics] at member
  simp at member

theorem fail_spoils (parser : Parser) : ¬parser.fail.Clean := by
  intro clean
  have leads : Leads (fun _ => True) parser.reportUnexpected parser.fail :=
    Leads.consumeInner parser.reportUnexpected
  exact reportUnexpected_spoils parser (leads.clean clean)

theorem raise_spoils (parser : Parser) (fault : Fault) : ¬(parser.raise fault).Clean :=
  fun clean => Parse.raise_fault_ne_none parser fault clean.unharmed

theorem refuseNesting_spoils (parser : Parser) : ¬parser.refuseNesting.2.Clean := by
  intro clean
  have leads : Leads (fun _ => True)
      { parser with context := parser.context.report .nestingTooDeep parser.aheadSpan }
      parser.refuseNesting.2 := Leads.consumeInner _
  exact report_spoils (leads.clean clean)

theorem clean_of_consume {parser : Parser} (clean : parser.consume.Clean) : parser.Clean where
  diagnostics := (context_consume parser).diagnostics_eq_empty clean.diagnostics
  unreported := (consume_keeps parser).2.2.2.symm.trans clean.unreported
  unharmed := (consume_keeps parser).2.2.1.symm.trans clean.unharmed

theorem clean_of_leaveNesting {parser : Parser} (clean : parser.leaveNesting.Clean) :
    parser.Clean := by
  unfold Parser.leaveNesting at clean
  split at clean
  · exact { clean with }
  · exact absurd clean (raise_spoils parser _)

end Parser

open Offside.Parser in
/-- A grammar mends nothing: where it ends clean it was clean before. -/
def Conduct.mendless : Conduct where
  starts _ := True
  leads before after := after.Clean → before.Clean
  fresh _ := True
  onward _ _ := trivial
  refl _ clean := clean
  trans first second clean := first (second clean)
  consume _ := clean_of_consume
  putBy parser clean :=
    have filled : Effect (fun _ => True) parser [] (parser.fill 1) := .fill parser
    { diagnostics := filled.context.diagnostics_eq_empty clean.diagnostics
      unreported := clean.unreported
      unharmed := filled.fault clean.unharmed }
  reportUnexpected parser clean := absurd clean (reportUnexpected_spoils parser)
  raise parser fault clean := absurd clean (raise_spoils parser fault)
  fresh_consume _ := trivial
  reportPassed _ clean := absurd clean report_spoils

def Token.isQuiet (token : Token) : Bool := token ≠ .endOfInput && (Leaf.ofKind? token).isNone

variable {token : Token}

theorem Token.inner_of_quiet (quiet : token.isQuiet = true) : token ≠ .endOfInput := by
  simp only [isQuiet, Bool.and_eq_true, decide_eq_true_eq] at quiet
  exact quiet.1

theorem Spells.quiet {texts : Position → Option Lexeme} {found : Token × Span}
    (quiet : found.1.isQuiet = true) : Spells texts [] [found] := by
  apply Spells.silent_all
  simp only [Token.isQuiet, Bool.and_eq_true, Option.isNone_iff_eq_none] at quiet
  simpa using quiet.2

namespace Parse

open Offside.Parser

variable {α β γ : Type}

/-- A production is run after marks were owed for what was read before, and after tokens that are
held since what they stand for is not settled. If it ends clean it has passed tokens that spell, with
the held ones before them, what its value has beyond the marks owed. -/
def ReadsFrom (texts : Position → Option Lexeme) (owed : List Mark) (held : List (Token × Span))
    (production : Parse α) (marks : α → List Mark) (parser : Parser) : Prop :=
  parser.Steady texts → (production parser).2.Steady texts ∧
    ((production parser).2.Clean → parser.Clean ∧ ∃ passed read,
      parser.rest = passed ++ (production parser).2.rest ∧ Spells texts read (held ++ passed) ∧
        marks (production parser).1 = owed ++ read)

/-- A production is run with no token held. -/
abbrev Reads (texts : Position → Option Lexeme) (owed : List Mark) (production : Parse α)
    (marks : α → List Mark) (parser : Parser) : Prop :=
  ReadsFrom texts owed [] production marks parser

section Rules

variable {texts : Position → Option Lexeme} {owed read : List Mark} {held : List (Token × Span)}
  {parser : Parser} {marks : β → List Mark}

@[simp] theorem reads_ahead {next : Token → Parse β} :
    ReadsFrom texts owed held (ahead >>= next) marks parser ↔
      ReadsFrom texts owed held (next parser.ahead) marks parser :=
  Iff.rfl

@[simp] theorem reads_aheadSpan {next : Span → Parse β} :
    ReadsFrom texts owed held (aheadSpan >>= next) marks parser ↔
      ReadsFrom texts owed held (next parser.aheadSpan) marks parser :=
  Iff.rfl

@[simp] theorem reads_isAt {next : Bool → Parse β} :
    ReadsFrom texts owed held (isAt token >>= next) marks parser ↔
      ReadsFrom texts owed held (next (decide (parser.ahead = token))) marks parser :=
  Iff.rfl

@[simp] theorem reads_isAtEnd {next : Bool → Parse β} :
    ReadsFrom texts owed held (isAtEnd >>= next) marks parser ↔
      ReadsFrom texts owed held (next parser.isAtEnd) marks parser :=
  Iff.rfl

@[simp] theorem reads_isAtWord {word : String} {next : Bool → Parse β} :
    ReadsFrom texts owed held (isAtWord word >>= next) marks parser ↔
      ReadsFrom texts owed held (next (parser.isAtWord word)) marks parser :=
  Iff.rfl

@[simp] theorem reads_get {next : Parser → Parse β} :
    ReadsFrom texts owed held (get >>= next) marks parser ↔
      ReadsFrom texts owed held (next parser) marks parser :=
  Iff.rfl

@[simp] theorem reads_pure_bind {value : α} {next : α → Parse β} :
    ReadsFrom texts owed held (Pure.pure value >>= next) marks parser ↔
      ReadsFrom texts owed held (next value) marks parser :=
  Iff.rfl

@[simp] theorem reads_bind_assoc {first : Parse α} {second : α → Parse γ} {third : γ → Parse β} :
    ReadsFrom texts owed held ((first >>= second) >>= third) marks parser ↔
      ReadsFrom texts owed held (first >>= fun value => second value >>= third) marks parser :=
  Iff.rfl

@[simp] theorem reads_map {production : Parse α} {change : α → β} :
    ReadsFrom texts owed held (change <$> production) marks parser ↔
      ReadsFrom texts owed held production (fun value => marks (change value)) parser :=
  Iff.rfl

theorem map_apply (change : α → β) (production : Parse α) :
    (change <$> production) parser =
      (change (production parser).1, (production parser).2) :=
  rfl

theorem Reads.pure {value : β} (same : marks value = owed) :
    Reads texts owed (pure value) marks parser :=
  fun steady => ⟨steady, fun clean => ⟨clean, [], [], rfl, .nil, same.trans owed.append_nil.symm⟩⟩

/-- A production that goes on with what is owed, and what follows it where the production ends as
known. -/
theorem Reads.chain_known {production : Parse α} {next : α → Parse β} {part : α → List Mark}
    (first : Reads texts owed production part parser) (holds : α → Parser → Prop)
    (known : holds (production parser).1 (production parser).2)
    (later : ∀ value after, holds value after → Reads texts (part value) (next value) marks after) :
    Reads texts owed (production >>= next) marks parser := by
  intro steady
  obtain ⟨steadyMiddle, readsFirst⟩ := first steady
  obtain ⟨steadyEnd, readsLater⟩ := later _ _ known steadyMiddle
  refine ⟨steadyEnd, fun clean => ?_⟩
  obtain ⟨cleanMiddle, passedLater, readLater, restMiddle, spellsLater, whole⟩ := readsLater clean
  obtain ⟨cleanStart, passed, read, rest, spells, part⟩ := readsFirst cleanMiddle
  refine ⟨cleanStart, passed ++ passedLater, read ++ readLater, ?_, spells.append spellsLater, ?_⟩
  · rw [rest, restMiddle, List.append_assoc]
    rfl
  · rw [← List.append_assoc, ← part]
    exact whole

theorem Reads.chain {production : Parse α} {next : α → Parse β} {part : α → List Mark}
    (first : Reads texts owed production part parser)
    (later : ∀ value after, Reads texts (part value) (next value) marks after) :
    Reads texts owed (production >>= next) marks parser :=
  first.chain_known (fun _ _ => True) trivial fun value after _ => later value after

theorem Reads.finish {production : Parse β} {part : β → List Mark}
    (reads : Reads texts [] production part parser)
    (same : ∀ value, marks value = owed ++ part value) :
    Reads texts owed production marks parser := by
  intro steady
  refine ⟨(reads steady).1, fun clean => ?_⟩
  obtain ⟨cleanStart, passed, read, rest, spells, part⟩ := (reads steady).2 clean
  refine ⟨cleanStart, passed, read, rest, spells, ?_⟩
  rw [same, part, List.nil_append]

theorem Reads.bind {production : Parse α} {next : α → Parse β} {part : α → List Mark}
    (first : Reads texts [] production part parser)
    (later : ∀ value after, Reads texts (owed ++ part value) (next value) marks after) :
    Reads texts owed (production >>= next) marks parser :=
  (first.finish fun _ => rfl).chain later

/-- Productions that do the same from a state read the same from it. -/
theorem ReadsFrom.congr {production other : Parse β} (same : production parser = other parser)
    (reads : ReadsFrom texts owed held other marks parser) :
    ReadsFrom texts owed held production marks parser := by
  unfold ReadsFrom
  rw [same]
  exact reads

theorem ReadsFrom.of_steady {production : Parse β}
    (reads : parser.Steady texts → ReadsFrom texts owed held production marks parser) :
    ReadsFrom texts owed held production marks parser :=
  fun steady => reads steady steady

theorem ReadsFrom.settle {production : Parse β} (spelled : Spells texts read held)
    (reads : Reads texts (owed ++ read) production marks parser) :
    ReadsFrom texts owed held production marks parser := by
  intro steady
  refine ⟨(reads steady).1, fun clean => ?_⟩
  obtain ⟨cleanStart, passed, later, rest, spells, whole⟩ := (reads steady).2 clean
  exact ⟨cleanStart, passed, read ++ later, rest, spelled.append spells,
    whole.trans (List.append_assoc ..)⟩

theorem ReadsFrom.drop {production : Parse β} (spelled : Spells texts [] held)
    (reads : Reads texts owed production marks parser) :
    ReadsFrom texts owed held production marks parser :=
  ReadsFrom.settle spelled (by simpa using reads)

/-- A step that changes the state in a known way holds the tokens it passes. -/
theorem ReadsFrom.step {production : Parse α} {next : α → Parse β} {value : α} {after : Parser}
    {passed : List (Token × Span)} (known : production parser = (value, after))
    (run : Run (fun _ => True) parser passed after)
    (reads : ReadsFrom texts owed (held ++ passed) (next value) marks after) :
    ReadsFrom texts owed held (production >>= next) marks parser := by
  have same : (production >>= next) parser = next value after := by
    rw [bind_apply, known]
  intro steady
  rw [same]
  obtain ⟨steadyEnd, readsLater⟩ := reads (run.steady steady)
  refine ⟨steadyEnd, fun clean => ?_⟩
  obtain ⟨cleanMiddle, later, read, rest, spells, whole⟩ := readsLater clean
  refine ⟨run.clean cleanMiddle, passed ++ later, read, ?_, ?_, whole⟩
  · rw [run.effect.rest, rest, List.append_assoc]
  · rwa [← List.append_assoc]

/-- Nothing is promised where the state ends unclean. -/
theorem ReadsFrom.of_unclean {production : Parse β}
    (leads : Leads (fun _ => True) parser (production parser).2)
    (unclean : ¬(production parser).2.Clean) :
    ReadsFrom texts owed held production marks parser :=
  fun steady => ⟨leads.steady steady, fun clean => absurd clean unclean⟩

/-- After a step that spoils the state only what is left to do matters, not what it reads. -/
theorem ReadsFrom.spoil {production : Parse α} {next : α → Parse β} {value : α} {after : Parser}
    {owedLater : List Mark} {heldLater : List (Token × Span)} {marksLater : β → List Mark}
    (known : production parser = (value, after))
    (steady : parser.Steady texts → after.Steady texts) (unclean : ¬after.Clean)
    (reads : ReadsFrom texts owedLater heldLater (next value) marksLater after) :
    ReadsFrom texts owed held (production >>= next) marks parser := by
  have same : (production >>= next) parser = next value after := by
    rw [bind_apply, known]
  intro steadyStart
  rw [same]
  obtain ⟨steadyEnd, readsLater⟩ := reads (steady steadyStart)
  exact ⟨steadyEnd, fun clean => absurd (readsLater clean).1 unclean⟩

/-- Only what is read from a clean state matters. -/
theorem ReadsFrom.of_clean {production : Parse β}
    (steady : parser.Steady texts → (production parser).2.Steady texts)
    (clean : (production parser).2.Clean → parser.Clean)
    (reads : parser.Clean → ReadsFrom texts owed held production marks parser) :
    ReadsFrom texts owed held production marks parser :=
  fun steadyStart =>
    ⟨steady steadyStart, fun cleanEnd => (reads (clean cleanEnd) steadyStart).2 cleanEnd⟩

theorem ReadsFrom.consume {next : Unit → Parse β} (inner : parser.isAtEnd = false)
    (reads : ReadsFrom texts owed (held ++ [(parser.ahead, parser.aheadSpan)]) (next ()) marks
      parser.consume) :
    ReadsFrom texts owed held (Parse.consume >>= next) marks parser :=
  ReadsFrom.step rfl (Run.consume inner) reads

theorem Reads.consume {next : Unit → Parse β} (inner : parser.isAtEnd = false)
    (spelled : Spells texts read [(parser.ahead, parser.aheadSpan)])
    (reads : Reads texts (owed ++ read) (next ()) marks parser.consume) :
    Reads texts owed (Parse.consume >>= next) marks parser :=
  ReadsFrom.consume inner (ReadsFrom.settle spelled reads)

theorem Reads.pass {next : Unit → Parse β} (found : parser.ahead = token)
    (quiet : token.isQuiet = true) (reads : Reads texts owed (next ()) marks parser.consume) :
    Reads texts owed (Parse.consume >>= next) marks parser := by
  rw [← found] at quiet
  exact ReadsFrom.consume (isAtEnd_of_ahead (Token.inner_of_quiet quiet) rfl)
    (ReadsFrom.drop (Spells.quiet quiet) reads)

theorem ReadsFrom.accept {next : Bool → Parse β} (inner : token ≠ .endOfInput)
    (taken : parser.ahead = token →
      ReadsFrom texts owed (held ++ [(token, parser.aheadSpan)]) (next true) marks parser.consume)
    (absent : parser.ahead ≠ token → ReadsFrom texts owed held (next false) marks parser) :
    ReadsFrom texts owed held (Parse.accept token >>= next) marks parser := by
  have known := accept_apply inner parser
  by_cases found : parser.ahead = token
  · rw [if_pos found] at known
    have run : Run (fun _ => True) parser [(parser.ahead, parser.aheadSpan)] parser.consume :=
      Run.consume (isAtEnd_of_ahead inner found)
    rw [found] at run
    exact ReadsFrom.step known run (taken found)
  · rw [if_neg found] at known
    exact ReadsFrom.step known (Run.refl parser) (by simpa using absent found)

theorem Reads.accept {next : Bool → Parse β} (quiet : token.isQuiet = true)
    (taken : parser.ahead = token → Reads texts owed (next true) marks parser.consume)
    (absent : parser.ahead ≠ token → Reads texts owed (next false) marks parser) :
    Reads texts owed (Parse.accept token >>= next) marks parser := by
  apply ReadsFrom.accept (Token.inner_of_quiet quiet)
  · intro found
    exact ReadsFrom.drop (Spells.quiet quiet) (taken found)
  · exact absent

/-- Whether the token is taken makes no difference. -/
theorem Reads.accept_either {next : Bool → Parse β} (quiet : token.isQuiet = true)
    (reads : ∀ found after, Reads texts owed (next found) marks after) :
    Reads texts owed (Parse.accept token >>= next) marks parser :=
  Reads.accept quiet (fun _ => reads true parser.consume) (fun _ => reads false parser)

/-- A token that is due is held until it is settled what it stands for. -/
theorem ReadsFrom.expect {next : Bool → Parse β} (inner : token ≠ .endOfInput)
    (found : parser.ahead = token →
      ReadsFrom texts owed (held ++ [(token, parser.aheadSpan)]) (next true) marks parser.consume)
    (missing : ReadsFrom texts owed held (next false) marks parser.fail) :
    ReadsFrom texts owed held (Parse.expect token >>= next) marks parser := by
  have known := expect_apply inner parser
  by_cases same : parser.ahead = token
  · rw [if_pos same] at known
    have run : Run (fun _ => True) parser [(parser.ahead, parser.aheadSpan)] parser.consume :=
      Run.consume (isAtEnd_of_ahead inner same)
    rw [same] at run
    exact ReadsFrom.step known run (found same)
  · rw [if_neg same] at known
    exact ReadsFrom.spoil known (Steady.fail) (fail_spoils parser) missing

theorem Reads.expect {next : Bool → Parse β} (quiet : token.isQuiet = true)
    (reads : ∀ found after, Reads texts owed (next found) marks after) :
    Reads texts owed (Parse.expect token >>= next) marks parser :=
  ReadsFrom.expect (Token.inner_of_quiet quiet)
    (fun _ => ReadsFrom.drop (Spells.quiet quiet) (reads true parser.consume))
    (reads false parser.fail)

theorem Reads.fail {next : Unit → Parse β} (reads : Reads texts owed (next ()) marks parser.fail) :
    Reads texts owed (Parse.fail >>= next) marks parser :=
  ReadsFrom.spoil rfl (Steady.fail) (fail_spoils parser) reads

theorem Reads.reportUnexpected {next : Unit → Parse β}
    (reads : Reads texts owed (next ()) marks parser.reportUnexpected) :
    Reads texts owed (Parse.reportUnexpected >>= next) marks parser :=
  ReadsFrom.spoil rfl Steady.reportUnexpected (reportUnexpected_spoils parser) reads

theorem Reads.report {problem : Problem} {span : Span} {next : Unit → Parse β}
    (reads : Reads texts owed (next ()) marks
      { parser with context := parser.context.report problem span }) :
    Reads texts owed
      ((modify fun parser =>
        { parser with context := parser.context.report problem span }) >>= next)
      marks parser :=
  ReadsFrom.spoil rfl (fun steady => steady.report problem span) report_spoils reads

theorem Reads.pure_of_unclean {value : β} (unclean : ¬parser.Clean) :
    Reads texts owed (Pure.pure value) marks parser :=
  ReadsFrom.of_unclean (Leads.refl parser) unclean

theorem expectOrSkipTo_apply (inner : token ≠ .endOfInput) (parser : Parser) :
    Parse.expectOrSkipTo token parser =
      if parser.ahead = token then (true, parser.consume)
      else (false, (Parse.accept token (parser.fail.skipTo token)).2) := by
  unfold Parse.expectOrSkipTo
  rw [bind_apply, expect_apply inner]
  by_cases found : parser.ahead = token
  · rw [if_pos found, if_pos found]
    rfl
  · rw [if_neg found, if_neg found, if_neg Bool.false_ne_true, if_neg inner]
    rfl

theorem Leads.accept (inner : token ≠ .endOfInput) (parser : Parser) :
    Leads (fun _ => True) parser (Parse.accept token parser).2 := by
  rw [accept_apply inner]
  split
  · rename_i found
    exact Leads.consume (isAtEnd_of_ahead inner found)
  · exact Leads.refl parser

theorem ReadsFrom.expectOrSkipTo {next : Bool → Parse β}
    (inner : token ≠ .endOfInput)
    (reads : ∀ found after,
      ReadsFrom texts owed (held ++ [(token, parser.aheadSpan)]) (next found) marks after) :
    ReadsFrom texts owed held (Parse.expectOrSkipTo token >>= next) marks parser := by
  have known := expectOrSkipTo_apply inner parser
  by_cases same : parser.ahead = token
  · rw [if_pos same] at known
    have run : Run (fun _ => True) parser [(parser.ahead, parser.aheadSpan)] parser.consume :=
      Run.consume (isAtEnd_of_ahead inner same)
    rw [same] at run
    exact ReadsFrom.step known run (reads true parser.consume)
  · rw [if_neg same] at known
    have skips : Leads (fun _ => True) parser.fail
        (Parse.accept token (parser.fail.skipTo token)).2 :=
      (Leads.skipTo token parser.fail).trans (Leads.accept inner _)
    exact ReadsFrom.spoil known (fun steady => skips.steady (steady.fail))
      (fun clean => fail_spoils parser (skips.clean clean)) (reads false _)

theorem Reads.expectOrSkipTo {next : Bool → Parse β} (quiet : token.isQuiet = true)
    (reads : ∀ found after, Reads texts owed (next found) marks after) :
    Reads texts owed (Parse.expectOrSkipTo token >>= next) marks parser :=
  ReadsFrom.expectOrSkipTo (Token.inner_of_quiet quiet) fun found after =>
    ReadsFrom.drop (Spells.quiet quiet) (reads found after)

theorem ReadsFrom.skipAll {next : Unit → Parse β}
    (reads : ∀ passed, (∀ found ∈ passed, found.1 = token) →
      ReadsFrom texts owed (held ++ passed) (next ()) marks (parser.skipAll token)) :
    ReadsFrom texts owed held (Parse.skipAll token >>= next) marks parser := by
  obtain ⟨passed, same, run⟩ := Run.skipAll token parser
  exact ReadsFrom.step rfl run (reads passed same)

theorem ReadsFrom.peek {distance : Nat} {next : Token → Parse β} (near : 1 ≤ distance)
    (within : distance ≤ reach)
    (reads : ∀ token after, Alike parser after → (distance = 1 → token = parser.consume.ahead) →
      ReadsFrom texts owed held (next token) marks after) :
    ReadsFrom texts owed held (Parse.peek distance >>= next) marks parser := by
  have known : Parse.peek distance parser =
      ((parser.peek distance).1.1, (parser.peek distance).2) := rfl
  apply ReadsFrom.step known (Run.peek near within parser)
  rw [List.append_nil]
  apply reads _ _ (Alike.peek near within parser)
  rintro rfl
  exact peek_one parser

theorem ReadsFrom.peekSpan {distance : Nat} {next : Span → Parse β} (near : 1 ≤ distance)
    (within : distance ≤ reach)
    (reads : ∀ span after, Alike parser after →
      ReadsFrom texts owed held (next span) marks after) :
    ReadsFrom texts owed held (Parse.peekSpan distance >>= next) marks parser := by
  have known : Parse.peekSpan distance parser =
      ((parser.peek distance).1.2, (parser.peek distance).2) := rfl
  apply ReadsFrom.step known (Run.peek near within parser)
  rw [List.append_nil]
  exact reads _ _ (Alike.peek near within parser)

/-- Spans of one file are joined, and those of two files spoil the state. -/
theorem join_cases (first last : Span) (parser : Parser) :
    Parse.join first last parser = (first.through last, parser) ∨
      ∃ after, Parse.join first last parser = (default, after) ∧
        Leads (fun _ => True) parser after ∧ ¬after.Clean := by
  unfold Parse.join Span.join
  by_cases same : first.file = last.file
  · rw [if_pos same]
    exact Or.inl rfl
  · rw [if_neg same]
    exact Or.inr ⟨_, rfl, ⟨[], Run.raise trivial trivial same⟩, raise_spoils parser _⟩

theorem Reads.join {first last : Span} {next : Span → Parse β}
    (reads : ∀ span after, Reads texts owed (next span) marks after) :
    Reads texts owed (Parse.join first last >>= next) marks parser := by
  rcases join_cases first last parser with known | ⟨after, known, leads, unclean⟩
  · exact ReadsFrom.step known (Run.refl parser) (reads _ parser)
  · exact ReadsFrom.spoil known leads.steady unclean (reads default after)

end Rules

section Repetition

variable {texts : Position → Option Lexeme} {marks : α → List Mark} {parser : Parser}

def oneRound (more : Parse Bool) (item : Parse α) : Parse (Option α) := do
  if ← more then return some (← item) else return none

/-- What a repetition does after a round: it ends, or goes on below what remains. -/
def afterRound (more : Parse Bool) (item : Parse (α ⊕ β)) (bound : Nat) :
    Option (α ⊕ β) → Parse (List α × Option β)
  | none => return ([], none)
  | some (.inr last) => return ([], some last)
  | some (.inl value) => fun after =>
    if after.remaining < bound then
      let found := repeatBelow more item after.remaining after
      ((value :: found.1.1, found.1.2), found.2)
    else (([value], none), after.raise .stalled)

theorem repeatBelow_eq (more : Parse Bool) (item : Parse (α ⊕ β)) (bound : Nat) (parser : Parser) :
    repeatBelow more item bound parser =
      (oneRound more item >>= afterRound more item bound) parser := by
  rw [repeatBelow, bind_apply, oneRound, bind_apply]
  rcases more parser with ⟨goes, going⟩
  cases goes with
  | false => rfl
  | true =>
    simp only [if_true, bind_apply]
    rcases item going with ⟨found, after⟩
    cases found with
    | inr last => rfl
    | inl value => rfl

theorem repeatBelow_reads {more : Parse Bool} {item : Parse (α ⊕ β)} {marksLast : β → List Mark}
    (rounds : ∀ start, Reads texts [] (oneRound more item)
      (fun found => found.elim [] (Sum.elim marks marksLast)) start)
    (bound : Nat) (parser : Parser) :
    Reads texts [] (repeatBelow more item bound)
      (fun found => found.1.flatMap marks ++ found.2.elim [] marksLast) parser := by
  induction bound using Nat.strong_induction_on generalizing parser with
  | _ bound induction =>
    apply ReadsFrom.congr (repeatBelow_eq more item bound parser)
    apply Reads.bind (rounds parser)
    intro found after
    match found with
    | none => exact Reads.pure (by simp)
    | some (.inr last) => exact Reads.pure (by simp)
    | some (.inl value) =>
      by_cases progress : after.remaining < bound
      · let below : Parse (List α × Option β) := repeatBelow more item after.remaining
        have goesOn : afterRound more item bound (some (.inl value)) after =
            ((fun found => (value :: found.1, found.2)) <$> below) after := if_pos progress
        apply ReadsFrom.congr goesOn
        apply reads_map.2
        exact Reads.finish (induction _ progress after) (by simp)
      · have stalls : afterRound more item bound (some (.inl value)) after =
            (([value], none), after.raise .stalled) := if_neg progress
        intro steady
        rw [stalls]
        exact ⟨{ steady with }, fun clean => absurd clean (raise_spoils after _)⟩

theorem repeatUntil_reads {more : Parse Bool} {item : Parse (α ⊕ β)} {marksLast : β → List Mark}
    (rounds : ∀ start, Reads texts [] (oneRound more item)
      (fun found => found.elim [] (Sum.elim marks marksLast)) start) (parser : Parser) :
    Reads texts [] (repeatUntil more item)
      (fun found => found.1.flatMap marks ++ found.2.elim [] marksLast) parser :=
  repeatBelow_reads rounds parser.remaining parser

theorem oneRound_map (more : Parse Bool) (item : Parse α) (change : α → β) (start : Parser) :
    oneRound more (change <$> item) start = (Option.map change <$> oneRound more item) start := by
  simp only [oneRound, bind_apply, map_apply]
  cases (more start).1 with
  | false => rfl
  | true => rfl

theorem many_reads {more : Parse Bool} {item : Parse α}
    (rounds : ∀ start, Reads texts [] (oneRound more item) (fun found => found.elim [] marks) start)
    (parser : Parser) : Reads texts [] (many more item) (List.flatMap marks) parser := by
  have each : ∀ start, Reads texts [] (oneRound more (Sum.inl <$> item : Parse (α ⊕ Empty)))
      (fun found => found.elim [] (Sum.elim marks Empty.elim)) start := by
    intro start
    apply ReadsFrom.congr (oneRound_map more item Sum.inl start)
    apply reads_map.2
    apply Reads.finish (rounds start)
    intro found
    cases found with
    | none => rfl
    | some value => rfl
  unfold many
  apply Reads.bind (repeatUntil_reads each parser)
  rintro ⟨values, last⟩ after
  cases last with
  | none => exact Reads.pure (by simp)
  | some last => exact last.elim

/-- Items that are read as long as the lookahead is of a kind. -/
theorem many_while_reads {isKind : Token → Bool} {item : Parse α}
    (each : ∀ start, Reads texts [] item marks start) (parser : Parser) :
    Reads texts [] (many (do return isKind (← Parse.ahead)) item) (List.flatMap marks) parser := by
  apply many_reads
  intro start
  unfold oneRound
  simp only [reads_bind_assoc, reads_ahead, reads_pure_bind]
  split
  · apply Reads.bind (each start)
    intro value after
    exact Reads.pure rfl
  · exact Reads.pure rfl

theorem many_accept_reads {separator : Token} {item : Parse α} (quiet : separator.isQuiet = true)
    (each : ∀ start, Reads texts [] item marks start) (parser : Parser) :
    Reads texts [] (many (accept separator) item) (List.flatMap marks) parser := by
  apply many_reads
  intro start
  apply Reads.accept quiet
  · intro _
    apply Reads.bind (each start.consume)
    intro value after
    exact Reads.pure rfl
  · intro _
    exact Reads.pure rfl

theorem separated_reads {separator : Token} {item : Parse α} (quiet : separator.isQuiet = true)
    (each : ∀ start, Reads texts [] item marks start) (parser : Parser) :
    Reads texts [] (separated separator item) (List.flatMap marks) parser := by
  unfold separated
  apply Reads.bind (each parser)
  intro first afterFirst
  apply Reads.bind (many_accept_reads quiet each afterFirst)
  intro later final
  exact Reads.pure (by simp)

theorem refuse_reads {refused : Span → α} (parser : Parser) :
    Reads texts [] (refuse refused) marks parser := by
  intro steady
  exact ⟨steady.refuseNesting, fun clean => absurd clean (refuseNesting_spoils parser)⟩

/-- Neither the depth nor a level that was entered makes a difference to what is read. -/
theorem nested_reads {refused : Span → α} {production : Parse α}
    (reads : Reads texts [] production marks { parser with depth := parser.depth + 1 }) :
    Reads texts [] (nested refused production) marks parser := by
  intro steady
  by_cases room : parser.depth < nestingLimit
  · have enters : enterNesting parser = (none, { parser with depth := parser.depth + 1 }) := by
      change parser.enterNesting = _
      rw [Parser.enterNesting, if_pos room]
    obtain ⟨steadyInside, readsInside⟩ := reads { steady with }
    rw [nested, bind_apply, enters]
    refine ⟨steadyInside.leaveNesting, fun clean => ?_⟩
    obtain ⟨cleanStart, passed, read, rest, spells, whole⟩ :=
      readsInside (clean_of_leaveNesting clean)
    exact ⟨{ cleanStart with }, passed, read,
      rest.trans (by rw [← (leaveNesting_keeps _).1]; rfl), spells, whole⟩
  · have refuses : enterNesting parser =
        (some parser.refuseNesting.1, parser.refuseNesting.2) := by
      change parser.enterNesting = _
      rw [Parser.enterNesting, if_neg room]
    rw [nested, bind_apply, refuses]
    exact ⟨steady.refuseNesting, fun clean => absurd clean (refuseNesting_spoils parser)⟩

end Repetition

end Parse

end Offside
