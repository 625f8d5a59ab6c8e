import Offside.Proofs.Derivation.Findings
import Offside.Proofs.Derivation.PatternProductions
import Offside.Proofs.Reports.Programs

/-!
Patterns that are read without a report are derived. By induction on the levels: the words that a
production of patterns has read when it ends with nothing reported are those of a tree, and the tree is
nested no deeper than the level allows.
-/

namespace Offside.Haskell.Core

set_option autoImplicit false

open Offside.Lexical Offside.Parser Offside.Parse Offside.Haskell.Grammar

section Findings

variable {file : FileId} {source : List Char} {words behind : List Word} {word : Word} {token : Token}

/-! Names. -/

theorem parses_ofSegments (segments : List Name) :
    Parses file source 0 words (ofSegments segments) words fun _ => True := by
  refine fun parser facing => ⟨trivial, ?_⟩
  unfold ofSegments
  cases Name.ofSegments segments with
  | ok name => exact Advances.refl facing
  | error fault => exact advances_raise facing fault

theorem finds_nameAt (inner : token ≠ .endOfInput) :
    Finds file source words (nameAt token) fun passed _ =>
      ∃ word, passed = [word] ∧ word.token = token := by
  refine Finds.start fun span => Finds.expect inner (fun _ => .ite (.pure _) (.pure _)) ?_
  rintro word rest rfl same
  rw [if_pos rfl]
  exact Finds.pure ⟨word, rfl, same⟩

theorem qualifierLeads_split (leads : qualifierLeads words = true) :
    ∃ qualifier dot gap text other behind,
      words = ⟨.properIdentifier, qualifier, gap⟩ :: ⟨.dot, dot, false⟩ :: ⟨other, text, false⟩ ::
        behind ∧ isQualifiable other = true := by
  rcases words with - | ⟨⟨first, one, gap⟩, - | ⟨⟨second, two, close⟩, - | ⟨⟨third, three, near⟩,
    behind⟩⟩⟩
  · cases leads
  · cases leads
  · cases leads
  · simp only [qualifierLeads, Bool.and_eq_true, beq_iff_eq, Bool.not_eq_true'] at leads
    obtain ⟨⟨⟨rfl, rfl⟩, named⟩, rfl, rfl⟩ := leads
    exact ⟨one, two, gap, three, third, behind, rfl, named⟩

/-- By induction on the number of words: behind its qualifiers the last part of a name is left. -/
theorem finds_qualifiers (words : List Word) :
    Finds file source words (many qualifierFollows qualifier) fun passed after =>
      ∀ last rest, after = last :: rest → ∃ qualifiers gap,
        IsDotted last.token last.text gap qualifiers (passed ++ [last]) := by
  generalize size : words.length = count
  induction count using Nat.strong_induction_on generalizing words with
  | _ count induction =>
    have asks := @parses_qualifierFollows file source 0 words
    cases leads : qualifierLeads words with
    | false =>
      rw [leads] at asks
      refine Finds.many_stop asks ?_
      rintro last rest -
      exact ⟨[], last.gap, .last last.gap⟩
    | true =>
      rw [leads] at asks
      obtain ⟨qualifier, dot, gap, text, other, behind, rfl, -⟩ := qualifierLeads_split leads
      have round : Finds file source (⟨.properIdentifier, qualifier, gap⟩ ::
          ⟨.dot, dot, false⟩ :: ⟨other, text, false⟩ :: behind) Grammar.qualifier
          fun own after => own = [⟨.properIdentifier, qualifier, gap⟩, ⟨.dot, dot, false⟩] ∧
            after = ⟨other, text, false⟩ :: behind :=
        Finds.parses parses_qualifier (show _ = [_, _] ++ _ from rfl) ⟨rfl, rfl⟩
      refine Finds.many_step asks (show _ = [] ++ _ from rfl) qualifierFollows_stays
        qualifier_stays round ?_ ?_
      · rintro own after - ⟨-, rfl⟩
        simp
      · rintro own after - ⟨rfl, rfl⟩
        refine (induction _ (by simp [← size]) _ rfl).mono ?_
        rintro further rest split held last later rfl
        obtain ⟨qualifiers, spaced, dotted⟩ := held last later rfl
        obtain ⟨first, more, whole, close, -⟩ := dotted.head
        have touches : first = ⟨other, text, false⟩ := by
          have parts : first :: more ++ later = ⟨other, text, false⟩ :: behind := by
            rw [split, ← whole, List.append_assoc]
            rfl
          exact (List.cons.inj parts).1
        rw [touches] at close
        obtain rfl : spaced = false := close.symm
        exact ⟨qualifier :: qualifiers, gap, .qualified gap qualifier dot dotted⟩

theorem finds_qualifiedBy {last : Parse Name} {isLast : Token → Prop} (logs : Logs last)
    (reads : ∀ words, Finds file source words last fun passed _ =>
      ∃ word, passed = [word] ∧ isLast word.token) :
    Finds file source words (qualifiedBy last) fun passed _ =>
      ∃ name : Dotted, name.Derives passed ∧ isLast name.token := by
  refine (finds_qualifiers words).bind qualifiers_stays
    (fun _ => logs.bind fun _ => ofSegments_stays _) fun segments passed after split named => ?_
  refine (reads after).bind logs (fun _ => ofSegments_stays _) ?_
  rintro name _ rest rfl ⟨word, rfl, kind⟩
  obtain ⟨qualifiers, gap, dotted⟩ := named word rest rfl
  refine Finds.parses (parses_ofSegments _) (show rest = [] ++ rest from rfl) ?_
  exact ⟨⟨qualifiers, word.token, word.text⟩, ⟨gap, by simpa using dotted⟩, kind⟩

theorem finds_eitherIdentifier :
    Finds file source words eitherIdentifier fun passed _ => ∃ word, passed = [word] ∧
      (word.token = .identifier ∨ word.token = .properIdentifier) := by
  refine Finds.look (parses_isAt .identifier) ?_
  split
  · exact (finds_nameAt (by decide)).mono fun passed after _ held =>
      held.imp fun word known => ⟨known.1, .inl known.2⟩
  · exact (finds_nameAt (by decide)).mono fun passed after _ held =>
      held.imp fun word known => ⟨known.1, .inr known.2⟩

theorem finds_constructor (proper : aheadOf words = .properIdentifier) :
    Finds file source words qualifiedIdentifier fun passed _ =>
      ∃ name : Dotted, name.isConstructor = true ∧ name.Derives passed := by
  have reads := @finds_qualifiedBy file source words eitherIdentifier
    (fun token => token = .identifier ∨ token = .properIdentifier) eitherIdentifier_stays
    fun _ => finds_eitherIdentifier
  refine reads.mono ?_
  rintro passed after rfl ⟨⟨qualifiers, token, text⟩, ⟨gap, dotted⟩, kind⟩
  refine ⟨⟨qualifiers, token, text⟩, ?_, gap, dotted⟩
  cases dotted with
  | last => simp [Dotted.isConstructor, (show token = .properIdentifier from proper)]
  | qualified => rcases kind with same | same <;> simp_all [Dotted.isConstructor]

/-! Looking past an opening parenthesis. -/

theorem parses_next {room : Nat} {first second : Word} :
    Parses file source room (first :: second :: behind) (Parse.peek 1) (first :: second :: behind)
      (· = second.token) := by
  refine Sees.parses fun place tokens marks _ => ?_
  cases marks with
  | @cons _ _ one _ _ _ _ marks =>
  cases marks with
  | @cons _ _ two _ tokens _ _ marks => exact sees_peek (by decide) (by decide) rfl

theorem parses_secondNext {room : Nat} {first second third : Word} :
    Parses file source room (first :: second :: third :: behind) (Parse.peek 2)
      (first :: second :: third :: behind) (· = third.token) := by
  refine Sees.parses fun place tokens marks _ => ?_
  cases marks with
  | @cons _ _ one _ _ _ _ marks =>
  cases marks with
  | @cons _ _ two _ _ _ _ marks =>
  cases marks with
  | @cons _ _ three _ tokens _ _ marks => exact sees_peek (by decide) (by decide) rfl

theorem exists_next (closed : ∀ last ∈ (word :: words).getLast?, last.token = .closeBrace)
    (other : word.token ≠ .closeBrace) : ∃ next rest, words = next :: rest := by
  cases words with
  | nil => exact absurd (closed word rfl) other
  | cons next rest => exact ⟨next, rest, rfl⟩

/-- By induction on the words: a run of tokens of a kind ends where another stands. -/
theorem exists_run (inner : token ≠ .endOfInput) (words : List Word) :
    ∃ run rest, words = run ++ rest ∧ (∀ word ∈ run, word.token = token) ∧ aheadOf rest ≠ token := by
  induction words with
  | nil => exact ⟨[], [], rfl, by simp, inner.symm⟩
  | cons word words induction =>
    by_cases same : word.token = token
    · obtain ⟨run, rest, rfl, all, other⟩ := induction
      exact ⟨word :: run, rest, rfl, List.forall_mem_cons.2 ⟨same, all⟩, other⟩
    · exact ⟨[], word :: words, rfl, by simp, same⟩

def isSymbolAlone (words : List Word) : Prop :=
  ∃ first second rest, words = first :: second :: rest ∧
    first.token.isConstructorOperator = true ∧ second.token = .closeParen

theorem parses_constructorThenParen
    (closed : ∀ last ∈ words.getLast?, last.token = .closeBrace) :
    Parses file source 0 words constructorThenParen words fun found =>
      found = true ↔ isSymbolAlone words := by
  refine Parses.ahead rfl ?_
  by_cases symbol : (aheadOf words).isConstructorOperator = true
  · rw [if_pos symbol]
    cases words with
    | nil => cases symbol
    | cons first words =>
      obtain ⟨second, rest, rfl⟩ := exists_next closed (by
        rintro brace
        rw [aheadOf, brace] at symbol
        cases symbol)
      refine Parses.decided parses_next (Parses.pure ?_)
      rw [decide_eq_true_eq]
      refine ⟨fun same => ⟨first, second, rest, rfl, symbol, same⟩, ?_⟩
      rintro ⟨_, _, _, split, _, closes⟩
      cases split
      exact closes
  · rw [if_neg symbol]
    refine Parses.pure ⟨by simp, ?_⟩
    rintro ⟨first, second, rest, rfl, operator, -⟩
    exact absurd operator symbol

theorem parses_quotedProper (closed : ∀ last ∈ words.getLast?, last.token = .closeBrace) :
    Parses file source 0 words (quotedFollows .properIdentifier) words fun found =>
      found = true → ∃ first second rest, words = first :: second :: rest ∧
        first.token = .backtick ∧ second.token = .properIdentifier := by
  by_cases backtick : aheadOf words = .backtick
  · cases words with
    | nil => cases backtick
    | cons first words =>
      obtain ⟨second, rest, rfl⟩ := exists_next closed (by
        intro brace
        cases brace.symm.trans backtick)
      refine Parses.whenAt backtick (Parses.decided parses_next (Parses.pure fun same => ?_))
      exact ⟨first, second, rest, rfl, backtick, of_decide_eq_true same⟩
  · exact Parses.unlessAt backtick (Parses.pure (by simp))

def opensConstructor (words : List Word) : Prop :=
  aheadOf words.tail = .comma ∨ isSymbolAlone words.tail

theorem parses_constructorInParens (closed : ∀ last ∈ words.getLast?, last.token = .closeBrace)
    (opens : aheadOf words = .openParen) :
    Parses file source 0 words parenthesizedConstructorFollows words fun found =>
      found = true → opensConstructor words := by
  cases words with
  | nil => cases opens
  | cons first words =>
    obtain ⟨second, rest, rfl⟩ := exists_next closed (by
      intro brace
      cases brace.symm.trans opens)
    refine Parses.decided parses_next ?_
    by_cases comma : second.token = .comma
    · rw [if_pos comma]
      exact Parses.pure fun _ => .inl comma
    rw [if_neg comma]
    by_cases symbol : second.token.isConstructorOperator = true
    · rw [if_pos symbol]
      rw [List.getLast?_cons_cons] at closed
      obtain ⟨third, rest, rfl⟩ := exists_next closed (by
        intro brace
        rw [brace] at symbol
        cases symbol)
      exact Parses.decided parses_secondNext (Parses.pure fun same =>
        .inr ⟨second, third, rest, rfl, symbol, of_decide_eq_true same⟩)
    · rw [if_neg symbol]
      exact Parses.pure (by simp)

theorem reject_reports : Reports reject :=
  .look fun _ => .look fun _ => .ite (reportUnexpected_reports.bind .reportUnexpected fun _ => .pure _)
    (fail_reports.bind .fail fun _ => .pure _)

theorem finds_rejected {α : Type} {made : Span → α} {holds : List Word → List Word → Prop} :
    Finds file source words (do return made (← reject)) holds :=
  Finds.of_reports (reject_reports.bind reject_stays fun _ => .pure _)

/-! Atoms, whose parts are read by a level that is known already. -/

/-- The patterns that a level reads without a report are derived, and nested less than a bound. -/
structure FindsPatterns (file : FileId) (source : List Char) (inner : Level) (bound : Nat) :
    Prop where
  logs : inner.Agrees .logging inner
  pattern : ∀ words, Finds file source words inner.pattern fun passed _ =>
    ∃ form : PatternForm, form.Derives passed ∧ form.nesting < bound
  patternAtom : ∀ words, Finds file source words inner.patternAtom fun passed _ =>
    ∃ atom : PatternAtom, atom.Derives passed ∧ atom.nesting < bound

section Atoms

variable {inner : Level} {bound : Nat} (finding : FindsPatterns file source inner bound)

include finding

theorem finds_variable {text : List Char} {gap : Bool} :
    Finds file source (⟨.identifier, text, gap⟩ :: behind) (variableOrAlias inner.patternAtom)
      fun passed _ => ∃ atom : PatternAtom, atom.Derives passed ∧ atom.nesting ≤ bound := by
  refine Finds.start fun start => Finds.after (parses_nameAt (by decide) text gap)
    (show _ = [_] ++ behind from rfl) fun name _ => ?_
  refine Finds.accept (by decide) ?_ fun _ => Finds.pure ⟨.named text, ⟨gap, rfl⟩, Nat.zero_le _⟩
  rintro sign rest rfl kind
  rw [if_pos rfl]
  refine (finding.patternAtom rest).bind finding.logs.patternAtom (fun _ => .look fun _ => .pure _) ?_
  rintro pattern own after - ⟨atom, derives, shallow⟩
  refine Finds.spanFrom fun span => Finds.pure ⟨.aliased text atom, ?_, ?_⟩
  · exact ⟨gap, _, rfl, sign, own, by simp, kind, derives⟩
  · rw [PatternAtom.nesting]
    omega

theorem finds_irrefutable (kind : word.token = .tilde) :
    Finds file source (word :: behind) (lazyPattern inner.patternAtom) fun passed _ =>
      ∃ atom : PatternAtom, atom.Derives passed ∧ atom.nesting ≤ bound := by
  refine Finds.start fun start => Finds.consume ?_
  refine (finding.patternAtom behind).bind finding.logs.patternAtom (fun _ => .look fun _ => .pure _) ?_
  rintro pattern own after - ⟨atom, derives, shallow⟩
  refine Finds.spanFrom fun span => Finds.pure ⟨.irrefutable atom, ?_, ?_⟩
  · exact ⟨word, own, by simp, kind, derives⟩
  · rw [PatternAtom.nesting]
    omega

/-- By induction on the rounds: the patterns behind commas. -/
theorem finds_laterPatterns (positive : 0 < bound) :
    Finds file source words (many (accept .comma) inner.pattern) fun passed after =>
      (∃ forms, PatternForm.LaterDerive forms passed ∧ PatternForm.listNesting forms < bound) ∧
        decide (aheadOf after = .comma) = false := by
  refine Finds.many (.accept _) finding.logs.pattern ?_ ?_ ⟨[], rfl, positive⟩ words
  · exact fun words other => parses_accept_other (by decide) (of_decide_eq_false other)
  · intro words leads
    cases words with
    | nil => cases of_decide_eq_true leads
    | cons comma rest =>
      refine ⟨[comma], rest, rfl, parses_accept (by decide) (of_decide_eq_true leads), ?_⟩
      refine (finding.pattern rest).mono ?_
      rintro own after - ⟨form, derives, shallow⟩
      refine ⟨by simp, ?_⟩
      rintro further ⟨forms, derive, room⟩
      refine ⟨form :: forms, ⟨comma :: own, further, by simp, ?_, derive⟩, ?_⟩
      · exact ⟨comma, own, rfl, of_decide_eq_true leads, derives⟩
      · exact Nat.max_lt.2 ⟨shallow, room⟩

/-- Behind the first pattern in parentheses there are others, or the parentheses close. -/
theorem finds_openPattern {opening : Word} (opens : opening.token = .openParen) (start : Span) :
    Finds file source words
      (do
        let first ← inner.pattern
        if ← isAt .comma then
          let later ← many (accept .comma) inner.pattern
          let _ ← expectOrSkipTo .closeParen
          return Expr.tuple (first :: later) (← spanFrom start)
        else
          let _ ← expectOrSkipTo .closeParen
          return .parenthesized first (← spanFrom start))
      fun passed _ => ∃ atom : PatternAtom, atom.Derives (opening :: passed) ∧
        atom.nesting ≤ bound := by
  have ended : ∀ made : Span → Expr, Logs (do
      let _ ← expectOrSkipTo .closeParen
      return made (← spanFrom start)) :=
    fun made => (Agrees.expectOrSkipTo _).bind fun _ => .look fun _ => .pure _
  refine (finding.pattern words).bind finding.logs.pattern (fun _ => .look fun _ => .ite
    ((Agrees.many (.accept _) finding.logs.pattern).bind fun _ => ended _) (ended _)) ?_
  rintro first front behind - ⟨form, derives, shallow⟩
  refine Finds.look (parses_isAt .comma) ?_
  by_cases comma : aheadOf behind = .comma
  · rw [if_pos (decide_eq_true comma)]
    refine (finds_laterPatterns finding (by omega)).bind (.many (.accept _) finding.logs.pattern)
      (fun _ => ended _) ?_
    rintro others back after split ⟨⟨forms, derive, room⟩, other⟩
    refine Finds.expectOrSkipTo (by decide) (fun _ => .look fun _ => .pure _) ?_
    rintro last rest rfl closes
    cases forms with
    | nil =>
      obtain rfl : back = [] := derive
      rw [List.nil_append] at split
      rw [← split] at other
      exact absurd comma (of_decide_eq_false other)
    | cons second forms =>
      refine Finds.spanFrom fun span => Finds.pure ⟨.tuple form second forms, ?_, ?_⟩
      · refine ⟨opening, _, rfl, opens, front ++ back, [last], by simp, ?_, last, [], rfl, closes, rfl⟩
        exact ⟨front, back, rfl, derives, derive⟩
      · rw [PatternForm.listNesting] at room
        rw [PatternAtom.nesting]
        omega
  · rw [if_neg (by simp [comma])]
    refine Finds.expectOrSkipTo (by decide) (fun _ => .look fun _ => .pure _) ?_
    rintro last rest rfl closes
    refine Finds.spanFrom fun span => Finds.pure ⟨.parenthesized form, ?_, ?_⟩
    · exact ⟨opening, _, rfl, opens, front, [last], by simp, derives, last, [], rfl, closes, rfl⟩
    · rw [PatternAtom.nesting]
      omega

omit finding in
theorem finds_tupleConstructor {opening : Word} (opens : opening.token = .openParen)
    (comma : aheadOf words = .comma) (start : Span) :
    Finds file source words (tupleConstructor start) fun passed _ =>
      ∃ count, (PatternAtom.tupleConstructor count).Derives (opening :: passed) := by
  obtain ⟨commas, rest, rfl, all, other⟩ := exists_run (show Token.comma ≠ .endOfInput by decide) words
  refine Finds.after (parses_skipAll_run all (by decide) other) rfl fun _ _ => ?_
  refine Finds.expectOrSkipTo (by decide) (fun _ => .look fun _ => .pure _) ?_
  rintro last after rfl closes
  cases commas with
  | nil => exact absurd comma other
  | cons first others =>
    refine Finds.spanFrom fun span => Finds.pure ⟨others.length, opening, _, rfl, opens,
      first :: others, [last], by simp, ?_, last, [], rfl, closes, rfl⟩
    refine List.eq_replicate_iff.2 ⟨by simp, fun token member => ?_⟩
    obtain ⟨word, among, rfl⟩ := List.mem_map.1 member
    exact all word among

theorem finds_parenthesizedPattern {opening : Word} (opens : opening.token = .openParen) :
    Finds file source (opening :: words) (parenthesizedPattern inner) fun passed _ =>
      ∃ atom : PatternAtom, atom.Derives passed ∧ atom.nesting ≤ bound ∧
        (opensConstructor (opening :: words) → atom.takesArguments = true) := by
  refine Finds.closed fun closed => Finds.start fun start => Finds.consume ?_
  refine Finds.accept (by decide) ?_ fun _ => ?_
  · rintro last rest rfl closes
    rw [if_pos rfl]
    refine Finds.spanFrom fun span => Finds.pure ⟨.unit, ?_, Nat.zero_le _, ?_⟩
    · exact ⟨opening, [last], rfl, opens, [], [last], rfl, rfl, last, [], rfl, closes, rfl⟩
    · rintro (comma | ⟨_, _, _, split, symbol, -⟩)
      · cases closes.symm.trans comma
      · cases split
        rw [closes] at symbol
        cases symbol
  rw [if_neg Bool.false_ne_true]
  refine Finds.look (parses_isAt .comma) ?_
  by_cases comma : aheadOf words = .comma
  · rw [if_pos (decide_eq_true comma)]
    exact (finds_tupleConstructor opens comma start).mono fun passed after _ held =>
      held.elim fun count derives => ⟨.tupleConstructor count, derives, Nat.zero_le _, fun _ => rfl⟩
  rw [if_neg (by simp [comma])]
  have within : ∀ last ∈ words.getLast?, last.token = .closeBrace := by
    intro last member
    cases words with
    | nil => cases member
    | cons next later => exact closed last (by simpa using member)
  refine Finds.after (parses_constructorThenParen within) (show _ = [] ++ words from rfl) ?_
  rintro (_ | _) alone
  · rw [if_neg Bool.false_ne_true]
    refine (finds_openPattern finding opens start).mono ?_
    rintro passed after - ⟨atom, derives, shallow⟩
    refine ⟨atom, derives, shallow, fun constructor => ?_⟩
    rcases constructor with known | known
    · exact absurd known comma
    · exact absurd (alone.2 known) Bool.false_ne_true
  · obtain ⟨first, second, rest, rfl, symbol, closes⟩ := alone.1 rfl
    rw [if_pos rfl]
    obtain ⟨token, text, gap⟩ := first
    refine Finds.after (parses_constructorSymbol symbol gap) (show _ = [_] ++ second :: rest from rfl)
      fun name _ => Finds.consume (Finds.pure ⟨.symbol token text, ?_, Nat.zero_le _, fun _ => rfl⟩)
    exact ⟨symbol, opening, _, rfl, opens, [_], [second], rfl, ⟨gap, rfl⟩, second, [], rfl, closes, rfl⟩

theorem finds_listPattern {opening : Word} (opens : opening.token = .openBracket) :
    Finds file source (opening :: words) (listPattern inner) fun passed _ =>
      ∃ atom : PatternAtom, atom.Derives passed ∧ atom.nesting ≤ bound := by
  refine Finds.start fun start => Finds.consume ?_
  refine Finds.look (parses_isAt .closeBracket) ?_
  by_cases empty : aheadOf words = .closeBracket
  · rw [if_pos (decide_eq_true empty)]
    refine Finds.expectOrSkipTo (by decide) (fun _ => .look fun _ => .pure _) ?_
    rintro last rest rfl closes
    refine Finds.spanFrom fun span => Finds.pure ⟨.emptyList, ?_, Nat.zero_le _⟩
    exact ⟨opening, [last], rfl, opens, [], [last], rfl, rfl, last, [], rfl, closes, rfl⟩
  rw [if_neg (by simp [empty])]
  have elements : Finds file source words (separated .comma inner.pattern) fun passed _ =>
      ∃ (form : PatternForm) (forms : List PatternForm),
        Beside form.Derives (PatternForm.LaterDerive forms) passed ∧
          form.nesting < bound ∧ PatternForm.listNesting forms < bound := by
    have commas : Logs (Parse.many (accept .comma) inner.pattern) :=
      .many (.accept _) finding.logs.pattern
    refine (finding.pattern words).bind finding.logs.pattern
      (fun _ => commas.bind fun _ => .pure _) ?_
    rintro first front behind - ⟨form, derives, shallow⟩
    refine (finds_laterPatterns finding (by omega)).bind commas (fun _ => .pure _) ?_
    rintro others back after - ⟨⟨forms, derive, room⟩, -⟩
    exact Finds.pure ⟨form, forms, ⟨front, back, by simp, derives, derive⟩, shallow, room⟩
  refine elements.bind (.separated finding.logs.pattern) (listEnd_stays start) ?_
  rintro exprs own after - ⟨form, forms, beside, shallow, room⟩
  refine Finds.expectOrSkipTo (by decide) (fun _ => .look fun _ => .pure _) ?_
  rintro last rest rfl closes
  refine Finds.spanFrom fun span => Finds.pure ⟨.list form forms, ?_, ?_⟩
  · exact ⟨opening, _, rfl, opens, own, [last], by simp, beside, last, [], rfl, closes, rfl⟩
  · rw [PatternAtom.nesting]
    omega

omit finding in
theorem finds_literal (known : (literalKind? word.token).isSome = true) :
    Finds file source (word :: behind) literal fun passed _ =>
      ∃ atom : PatternAtom, atom.Derives passed ∧ atom.nesting ≤ bound := by
  have literal : IsLiteral word.token word.text [word] := ⟨known, word.gap, rfl⟩
  exact Finds.parses (parses_literalPattern literal) rfl
    ⟨.literal word.token word.text, literal, Nat.zero_le _⟩

/-- The atoms that are read without a report. Behind the parenthesis of a constructor it is one. -/
theorem finds_patternAtom :
    Finds file source words (patternAtom inner) fun passed _ =>
      ∃ atom : PatternAtom, atom.Derives passed ∧ atom.nesting ≤ bound ∧
        (aheadOf words = .openParen → opensConstructor words → atom.takesArguments = true) := by
  have plain : ∀ {production : Parse Expr}, aheadOf words ≠ .openParen →
      Finds file source words production
        (fun passed _ => ∃ atom : PatternAtom, atom.Derives passed ∧ atom.nesting ≤ bound) →
      Finds file source words production fun passed _ =>
        ∃ atom : PatternAtom, atom.Derives passed ∧ atom.nesting ≤ bound ∧
          (aheadOf words = .openParen → opensConstructor words → atom.takesArguments = true) := by
    intro production other finds
    refine finds.mono ?_
    rintro passed after - ⟨atom, derives, shallow⟩
    exact ⟨atom, derives, shallow, fun same => absurd same other⟩
  refine Finds.ahead ?_
  cases words with
  | nil => exact finds_rejected
  | cons word behind =>
    obtain ⟨token, text, gap⟩ := word
    cases token with
    | identifier => exact plain (by simp [aheadOf]) (finds_variable finding)
    | properIdentifier =>
      refine plain (by simp [aheadOf]) ?_
      refine (finds_constructor rfl).bind qualifiedIdentifier_stays (fun _ => .pure _) ?_
      rintro found own after - ⟨name, constructor, derives⟩
      exact Finds.pure ⟨.constructor name, ⟨constructor, by simpa using derives⟩, Nat.zero_le _⟩
    | underscore =>
      refine plain (by simp [aheadOf]) (Finds.start fun span => Finds.consume (Finds.pure ?_))
      exact ⟨.wildcard, ⟨_, [], rfl, rfl, rfl⟩, Nat.zero_le _⟩
    | tilde => exact plain (by simp [aheadOf]) (finds_irrefutable finding rfl)
    | integer | float | string | character => exact plain (by simp [aheadOf]) (finds_literal rfl)
    | openParen =>
      refine (finds_parenthesizedPattern finding rfl).mono ?_
      rintro passed after - ⟨atom, derives, shallow, takes⟩
      exact ⟨atom, derives, shallow, fun _ => takes⟩
    | openBracket => exact plain (by simp [aheadOf]) (finds_listPattern finding rfl)
    | _ => exact finds_rejected

/-! Operands. -/

omit finding in
theorem argumentFollows_logs : Logs argumentFollows :=
  .look fun _ => .ite ((qualifiedSymbolFollows_stays _).bind fun _ => .pure _) (.pure _)

/-- By induction on the rounds: the arguments of a constructor. -/
theorem finds_patternArguments :
    Finds file source words (many argumentFollows (patternAtom inner)) fun passed after =>
      (∃ atoms, PatternAtom.ListDerives atoms passed ∧ PatternAtom.listNesting atoms ≤ bound) ∧
        argumentLeads after = false := by
  refine Finds.many argumentFollows_logs (patternAtom_agrees finding.logs) ?_ ?_
    ⟨[], rfl, Nat.zero_le _⟩ words
  · intro words ends
    exact ends ▸ parses_argumentFollows
  · intro words leads
    refine ⟨[], words, rfl, leads ▸ parses_argumentFollows, ?_⟩
    refine (finds_patternAtom finding).mono ?_
    rintro own after - ⟨atom, derives, shallow, -⟩
    refine ⟨?_, ?_⟩
    · obtain ⟨word, rest, rfl, -⟩ := atom.head derives
      simp
    · rintro further ⟨atoms, derive, room⟩
      exact ⟨atom :: atoms, ⟨own, further, by simp, derives, derive⟩, Nat.max_le.2 ⟨shallow, room⟩⟩

theorem finds_constructorPattern {own : List Word} {function : PatternAtom} (start : Span)
    (constructor : Expr) (takes : function.takesArguments = true) (derives : function.Derives own)
    (shallow : function.nesting ≤ bound) :
    Finds file source words (constructorPattern inner start constructor) fun passed _ =>
      ∃ operand : PatternOperand, operand.Derives (own ++ passed) ∧ operand.nesting ≤ bound := by
  refine (finds_patternArguments finding).bind
    (.many argumentFollows_logs (patternAtom_agrees finding.logs))
    (fun _ => .ite (.pure _) (.look fun _ => .pure _)) ?_
  rintro arguments front after - ⟨⟨atoms, derive, room⟩, -⟩
  have found : ∃ operand : PatternOperand, operand.Derives (own ++ (front ++ [])) ∧
      operand.nesting ≤ bound := by
    rw [List.append_nil]
    exact ⟨.applied function atoms, ⟨.inl takes, own, front, rfl, derives, derive⟩,
      Nat.max_le.2 ⟨shallow, room⟩⟩
  split
  · exact Finds.pure found
  · exact Finds.spanFrom fun span => Finds.pure found

omit finding in
theorem finds_numeral : Finds file source words numeral fun passed _ =>
    ∃ token text, (token = .integer ∨ token = .float) ∧ IsLiteral token text passed := by
  have number : ∀ {first : Word} {rest : List Word},
      (first.token = .integer ∨ first.token = .float) →
      Finds file source (first :: rest) Grammar.literal fun passed _ =>
        ∃ token text, (token = .integer ∨ token = .float) ∧ IsLiteral token text passed := by
    intro first rest kind
    have literal : IsLiteral first.token first.text [first] := by
      refine ⟨?_, first.gap, rfl⟩
      rcases kind with same | same <;> (rw [same]; rfl)
    have read : Finds file source (first :: rest) (Grammar.literal >>= Pure.pure) fun passed _ =>
        ∃ token text, (token = .integer ∨ token = .float) ∧ IsLiteral token text passed :=
      Finds.after (parses_literalPattern literal) (show _ = [first] ++ rest from rfl) fun _ _ =>
        Finds.pure ⟨first.token, first.text, kind, literal⟩
    exact read
  refine Finds.ahead ?_
  cases words with
  | nil => exact Finds.of_reports (reject_reports.bind reject_stays fun _ => .pure _)
  | cons first rest =>
    obtain ⟨token, text, gap⟩ := first
    cases token with
    | integer => exact number (.inl rfl)
    | float => exact number (.inr rfl)
    | _ => exact Finds.of_reports (reject_reports.bind reject_stays fun _ => .pure _)

omit finding in
theorem finds_negativeLiteral (minus : word.token = .minus) :
    Finds file source (word :: behind) negativeLiteral fun passed _ =>
      ∃ operand : PatternOperand, operand.Derives passed ∧ operand.nesting ≤ bound := by
  refine Finds.start fun start => Finds.consume ?_
  refine finds_numeral.bind numeral_stays (fun _ => .look fun _ => .pure _) ?_
  rintro value own after - ⟨token, text, kind, literal⟩
  refine Finds.spanFrom fun span => Finds.pure ⟨.negative token text, ?_, Nat.zero_le _⟩
  exact ⟨kind, word, own, by simp, minus, literal⟩

theorem finds_operandPattern :
    Finds file source words (operandPattern inner) fun passed _ =>
      ∃ operand : PatternOperand, operand.Derives passed ∧ operand.nesting ≤ bound := by
  have alone : Finds file source words (patternAtom inner) fun passed _ =>
      ∃ operand : PatternOperand, operand.Derives passed ∧ operand.nesting ≤ bound := by
    refine (finds_patternAtom finding).mono ?_
    rintro passed after - ⟨atom, derives, shallow, -⟩
    exact ⟨.applied atom [], ⟨.inr rfl, passed, [], by simp, derives, rfl⟩,
      Nat.max_le.2 ⟨shallow, Nat.zero_le _⟩⟩
  refine Finds.closed fun closed => Finds.start fun start => Finds.ahead ?_
  cases words with
  | nil => exact alone
  | cons word behind =>
    obtain ⟨token, text, gap⟩ := word
    cases token with
    | minus => exact finds_negativeLiteral rfl
    | properIdentifier =>
      refine (finds_constructor rfl).bind qualifiedIdentifier_stays
        (fun _ => constructorPattern_agrees finding.logs _ _) ?_
      rintro found own after - ⟨name, constructor, derives⟩
      have whole : (PatternAtom.constructor name).Derives own := ⟨constructor, derives⟩
      exact finds_constructorPattern finding start _ rfl whole (Nat.zero_le _)
    | openParen =>
      refine Finds.after (parses_constructorInParens closed rfl) (show _ = [] ++ _ from rfl) ?_
      rintro (_ | _) opens
      · rw [if_neg Bool.false_ne_true]
        exact alone
      · rw [if_pos rfl]
        refine (finds_patternAtom finding).bind (patternAtom_agrees finding.logs)
          (fun _ => constructorPattern_agrees finding.logs _ _) ?_
        rintro constructor own after - ⟨atom, derives, shallow, takes⟩
        exact finds_constructorPattern finding start constructor (takes rfl (opens rfl)) derives
          shallow
    | _ => exact alone

end Atoms

/-! Operators and whole patterns. -/

theorem finds_qualifiedSymbol (leads : symbolLeads Token.isConstructorOperator words = true) :
    Finds file source words (qualifiedBy constructorSymbol) fun passed _ =>
      ∃ name : Dotted, name.isConstructorSymbol = true ∧ name.Derives passed := by
  have symbols : ∀ words, Finds file source words constructorSymbol fun passed _ =>
      ∃ word, passed = [word] ∧ word.token.isConstructorOperator = true := by
    intro words
    refine Finds.start fun span => Finds.ahead ?_
    by_cases symbol : (aheadOf words).isConstructorOperator = true
    · rw [if_pos symbol]
      cases words with
      | nil => cases symbol
      | cons word rest => exact Finds.consume (Finds.pure ⟨word, rfl, symbol⟩)
    · rw [if_neg symbol]
      exact Finds.of_reports (fail_reports.bind .fail fun _ => .pure _)
  have reads := @finds_qualifiedBy file source words constructorSymbol
    (fun token => token.isConstructorOperator = true) constructorSymbol_stays symbols
  refine reads.mono ?_
  rintro passed after rfl ⟨⟨qualifiers, token, text⟩, ⟨gap, dotted⟩, kind⟩
  refine ⟨⟨qualifiers, token, text⟩, ?_, gap, dotted⟩
  -- The third word is a symbol, so a second qualifier would stand in its place.
  have short : qualifiers.length ≤ 1 := by
    cases dotted with
    | last => exact Nat.zero_le _
    | qualified gap qualifier dot later =>
      cases later with
      | last => exact Nat.le_refl _
      | qualified => simp [symbolLeads, Token.isConstructorOperator] at leads
  simp [Dotted.isConstructorSymbol, kind, short]

theorem finds_quotedConstructor {first second : Word} (opens : first.token = .backtick)
    (proper : second.token = .properIdentifier) :
    Finds file source (first :: second :: behind) quotedOperator fun passed _ =>
      ∃ operator : PatternOperator, operator.Derives passed := by
  have ended : ∀ name : Name, Logs (do
      let _ ← expectOrSkipTo .backtick
      return name) := fun name => (Agrees.expectOrSkipTo _).bind fun _ => .pure name
  have ahead : aheadOf (second :: behind) = .properIdentifier := proper
  refine Finds.consume ((finds_constructor ahead).bind qualifiedIdentifier_stays ended ?_)
  rintro found own after - ⟨name, constructor, derives⟩
  refine Finds.expectOrSkipTo (by decide) (fun _ => .pure _) ?_
  rintro last rest rfl closes
  refine Finds.pure ⟨.quoted name, constructor, first, _, rfl, opens, own, [last], ?_, derives, last,
    [], rfl, closes, rfl⟩
  simp

/-- An operator that was read is derived, and where none is read the words stay. -/
theorem finds_constructorOperator {β : Type} {next : Option Name → Parse β}
    {holds : List Word → List Word → Prop} (logs : ∀ found, Logs (next found))
    (some : ∀ (operator : PatternOperator) name passed after, operator.Derives passed →
      Finds file source after (next (some name)) fun more rest => holds (passed ++ more) rest)
    (none : Finds file source words (next none) holds) :
    Finds file source words (constructorOperator? >>= next) holds := by
  refine Finds.closed fun closed => Finds.assoc (Finds.ahead ?_)
  by_cases symbol : (aheadOf words).isConstructorOperator = true
  · rw [if_pos symbol]
    cases words with
    | nil => cases symbol
    | cons word behind =>
      obtain ⟨token, text, gap⟩ := word
      have known : token.isConstructorOperator = true := symbol
      have whole : (PatternOperator.symbol ⟨[], token, text⟩).Derives [⟨token, text, gap⟩] :=
        ⟨by simp [Dotted.isConstructorSymbol, known], gap, .last gap⟩
      exact Finds.assoc (Finds.after (parses_constructorSymbol symbol gap)
        (show _ = [_] ++ behind from rfl) fun name _ => some _ name _ behind whole)
  rw [if_neg symbol]
  refine Finds.assoc (Finds.look parses_symbolLeads ?_)
  cases leads : symbolLeads Token.isConstructorOperator words with
  | true =>
    rw [if_pos rfl]
    refine Finds.assoc ((finds_qualifiedSymbol leads).bind
      (qualifiedBy_stays constructorSymbol_stays) (fun _ => logs _) ?_)
    rintro name own after - ⟨found, constructor, derives⟩
    exact some (.symbol found) name own after ⟨constructor, derives⟩
  | false =>
    rw [if_neg Bool.false_ne_true]
    refine Finds.assoc (Finds.after (parses_quotedProper closed) (show _ = [] ++ words from rfl) ?_)
    rintro (_ | _) quoted
    · rw [if_neg Bool.false_ne_true]
      exact none
    · obtain ⟨first, second, rest, rfl, opens, proper⟩ := quoted rfl
      rw [if_pos rfl]
      refine Finds.assoc ((finds_quotedConstructor opens proper).bind quotedOperator_stays
        (fun _ => logs _) ?_)
      rintro name own after - ⟨operator, derives⟩
      exact some operator name own after derives

theorem finds_patternProduction {inner : Level} {bound : Nat}
    (finding : FindsPatterns file source inner bound) :
    Finds file source words (patternProduction inner) fun passed _ =>
      ∃ form : PatternForm, form.Derives passed ∧ form.nesting ≤ bound := by
  refine Finds.start fun start => (finds_operandPattern finding).bind
    (operandPattern_agrees finding.logs) (fun _ => patternAfter_agrees finding.logs _ _) ?_
  rintro left front behind - ⟨operand, derives, shallow⟩
  have ended : ∀ right operator, Logs (do
      return Expr.binary left operator right (← spanFrom start)) :=
    fun right operator => .look fun _ => .pure _
  refine finds_constructorOperator ?_ ?_ ?_
  · rintro (_ | operator)
    · exact .pure left
    · exact finding.logs.pattern.bind fun right => ended right operator
  · rintro operator name own rest operates
    refine (finding.pattern rest).bind finding.logs.pattern (fun right => ended right name) ?_
    rintro right back after - ⟨form, derivesRight, shallowRight⟩
    refine Finds.spanFrom fun span => Finds.pure ⟨.binary operand operator form, ?_, ?_⟩
    · exact ⟨front, own ++ back, by simp, derives, own, back, rfl, operates, derivesRight⟩
    · rw [PatternForm.nesting]
      omega
  · exact Finds.pure ⟨.operand operand, by simpa [PatternForm.Derives] using derives, shallow⟩

/-- By induction on the levels: what each of them reads without a report is derived. -/
theorem level_findsPatterns (further : Nat) :
    FindsPatterns file source (level further) further := by
  induction further with
  | zero =>
    exact ⟨level_logs 0, fun _ => Finds.of_reports (refuse_reports _),
      fun _ => Finds.of_reports (refuse_reports _)⟩
  | succ further induction =>
    refine ⟨level_logs _, fun words => Finds.nested ?_, fun words => Finds.nested ?_⟩
    · exact (finds_patternProduction induction).mono fun _ _ _ held =>
        held.imp fun _ known => ⟨known.1, Nat.lt_succ_of_le known.2⟩
    · exact (finds_patternAtom induction).mono fun _ _ _ held =>
        held.imp fun _ known => ⟨known.1, Nat.lt_succ_of_le known.2.1⟩

end Findings

end Offside.Haskell.Core
