import Offside.Proofs.Rendering.Expressions

/-!
Brackets as they are read back. What an opening parenthesis starts is told by the first word behind it,
and whether the chain behind it ends in a section by the word before the closing one. Every bracket and
every element behind a comma takes one nesting level.
-/

namespace Offside.Haskell.Core

set_option autoImplicit false

open Offside.Lexical Offside.Parse Offside.Haskell.Grammar

section Brackets

variable {spacing : Spacing} {file : FileId} {source : List Char} {further : Nat}
  {words later after final : List Word}

/-- A token that ends an expression neither starts nor continues one. -/
theorem closer_apart {token : Token} (closes : isCloser token = true) :
    startsAtom token = false ∧ token.isOperator = false ∧ token ≠ .properIdentifier ∧
      token ≠ .backtick ∧ token ≠ .doubleColon ∧ token ≠ .doubleDot ∧ token ≠ .pipe := by
  cases token <;> first | decide | cases closes

theorem Chain.words_head (spacing : Spacing) (chain : Chain) (gap : Bool) :
    ∃ word others, chain.words spacing gap = word :: others ∧
      (startsAtom word.token = true ∨ word.token = .minus) := by
  obtain ⟨word, others, split, starts⟩ := chain.first.words_head spacing gap
  exact ⟨word, others ++ chain.tail spacing, by rw [chain.words_eq, split]; rfl, starts⟩

theorem parses_closed {inner : Level} {room : Nat} {inSection : Bool} {start : Span} {left : Expr}
    (closes : isCloser (aheadOf words) = true) :
    Parses file source room words (chainFrom inner inSection start left none) words
      (· = (left, none)) := by
  obtain ⟨-, operator, proper, backtick, -⟩ := closer_apart closes
  exact parses_chainFrom_stop (parses_no_operator operator proper backtick)

theorem Chain.parses {chain : Chain} (read : chain.IsRead spacing file source further) (gap : Bool)
    (closes : isCloser (aheadOf later) = true) :
    Parses file source further (chain.words spacing gap ++ later) (Grammar.chain (level further))
      later (chain.Matches (Span.Shows file source)) := by
  have stops : Stops file source further (level further) later later (· = none) :=
    stops_of_ahead (closer_apart closes).1
  have ended : ∀ value operator, chain.Matches (Span.Shows file source) value → operator = none →
      ∀ start, Parses file source further later
        (chainFrom (level further) false start value operator >>= fun found => pure found.1) later
        (chain.Matches (Span.Shows file source)) := by
    rintro value _ matched rfl start
    refine (parses_closed closes).bind ?_
    rintro _ rfl
    exact Parses.pure matched
  rw [chain.words_eq, List.append_assoc]
  refine Parses.start fun start => ?_
  obtain ⟨between, met, follows, here, goesOn⟩ :=
    chain.continues read false start _ (follows_of_closer closes) stops
      fun value operator matched none => ended value operator matched none start
  refine (Operand.parses (chain.first_isRead read) gap follows here).bind ?_
  rintro ⟨value, operator⟩ ⟨matched, taken⟩
  exact goesOn value operator matched taken

theorem parses_annotated {inner : Level} {room : Nat} {start : Span} {expr : Expr}
    (closes : isCloser (aheadOf words) = true) :
    Parses file source room words (annotated inner start expr) words (· = expr) :=
  Parses.unlessAccepted (by decide) (closer_apart closes).2.2.2.2.1 (Parses.pure rfl)

theorem Chain.parses_expression {chain : Chain}
    (read : chain.IsRead spacing file source further) (gap : Bool)
    (closes : isCloser (aheadOf later) = true) :
    Parses file source (further + 1) (chain.words spacing gap ++ later)
      (level (further + 1)).expression later (chain.Matches (Span.Shows file source)) := by
  refine parses_nested (Parses.start fun start => ?_)
  refine (chain.parses read gap closes).bind fun value matched => ?_
  exact (parses_annotated closes).mono fun _ same => same ▸ matched

theorem parses_soleOperand {before : List Word} {holds : Expr → Prop}
    (unsigned : aheadOf before ≠ .minus) (closes : isCloser (aheadOf later) = true)
    (reads : Parses file source further before (operand (level further)) later fun found =>
      found.2 = none ∧ holds found.1) :
    Parses file source (further + 1) before (level (further + 1)).expression later holds := by
  have chained : Parses file source further before (Grammar.chain (level further)) later holds := by
    refine Parses.start fun start => ?_
    refine (Parses.unlessAt unsigned reads).bind ?_
    rintro ⟨value, _⟩ ⟨rfl, held⟩
    refine (parses_closed closes).bind ?_
    rintro _ rfl
    exact Parses.pure held
  refine parses_nested (Parses.start fun start => chained.bind fun expr held => ?_)
  exact (parses_annotated closes).mono fun _ same => same ▸ held

/-- By induction on the elements: each is read behind its comma. -/
theorem parses_laterElements {chains : List Chain}
    (reads : ∀ chain ∈ chains, chain.IsRead spacing file source further)
    (closes : isCloser (aheadOf later) = true) (other : aheadOf later ≠ .comma) :
    Parses file source (further + 1) (Chain.laterWords spacing chains ++ later)
      (many (accept .comma) (level (further + 1)).expression) later
      (Chain.ListMatches (Span.Shows file source) chains) := by
  induction chains with
  | nil => exact parses_many_stop (parses_accept_other (by decide) other)
  | cons chain others induction =>
    rw [List.forall_mem_cons] at reads
    rw [Chain.laterWords, List.cons_append, List.append_assoc]
    have next : isCloser (aheadOf (Chain.laterWords spacing others ++ later)) = true := by
      cases others with
      | nil => exact closes
      | cons next others => rfl
    have fewer : (Chain.laterWords spacing others ++ later).length <
        (Word.fixed .comma false :: (chain.words spacing spacing.afterComma ++
          (Chain.laterWords spacing others ++ later))).length := by
      simp only [List.length_cons, List.length_append]
      omega
    exact parses_many_step (parses_accept (by decide) rfl)
      (chain.parses_expression reads.1 _ next) fewer (induction reads.2)

/-- A chain starts with no token but those of an atom and the sign. -/
theorem Chain.ahead_ne (spacing : Spacing) (chain : Chain) (gap : Bool) (later : List Word)
    {token : Token} (other : startsAtom token = false) (unsigned : token ≠ .minus) :
    aheadOf (chain.words spacing gap ++ later) ≠ token := by
  obtain ⟨word, others, split, starts⟩ := chain.words_head spacing gap
  rw [split]
  rintro rfl
  rcases starts with atom | minus
  · cases other.symm.trans atom
  · exact unsigned minus

theorem parses_listEnd (start : Span) (elements : List Expr) :
    Parses file source further (.fixed .closeBracket false :: later) (listEnd start elements) later
      fun expr => ∃ span, expr = .list elements span :=
  Parses.decided (parses_expectOrSkipTo (by decide) rfl)
    (Parses.spanFrom fun span => Parses.pure ⟨span, rfl⟩)

theorem parses_emptyList (inner : Level) (gap : Bool) :
    Parses file source further ((Atom.emptyList).words spacing gap ++ later) (brackets inner) later
      ((Atom.emptyList).Matches (Span.Shows file source)) := by
  refine Parses.start fun start => Parses.consume ?_
  exact Parses.whenAccepted (by decide) rfl (Parses.spanFrom fun span => Parses.pure ⟨span, rfl⟩)

theorem parses_list {first : Chain} {chains : List Chain}
    (read : first.IsRead spacing file source further)
    (reads : ∀ chain ∈ chains, chain.IsRead spacing file source further) (gap : Bool) :
    Parses file source (further + 1) ((Atom.list first chains).words spacing gap ++ later)
      (brackets (level (further + 1))) later
      ((Atom.list first chains).Matches (Span.Shows file source)) := by
  rw [Atom.words, enclosed_append, List.append_assoc]
  have closes : isCloser (aheadOf (Chain.laterWords spacing chains ++
      .fixed .closeBracket false :: later)) = true := by
    cases chains <;> rfl
  have facts := closer_apart closes
  refine Parses.start fun start => Parses.consume ?_
  refine Parses.unlessAccepted (by decide) (first.ahead_ne spacing _ _ rfl (by decide)) ?_
  refine (first.parses_expression read false closes).bind fun one matched => ?_
  refine Parses.unlessAccepted (by decide) facts.2.2.2.2.2.1 ?_
  refine Parses.unlessAccepted (by decide) facts.2.2.2.2.2.2 ?_
  cases chains with
  | nil =>
    refine Parses.unlessAccepted (by decide) (by simp [Chain.laterWords, aheadOf, Word.fixed]) ?_
    refine (parses_listEnd start _).mono ?_
    rintro _ ⟨span, rfl⟩
    exact ⟨one, [], span, rfl, matched, rfl⟩
  | cons second others =>
    rw [List.forall_mem_cons] at reads
    have next : isCloser (aheadOf (Chain.laterWords spacing others ++
        .fixed .closeBracket false :: later)) = true := by
      cases others <;> rfl
    rw [Chain.laterWords, List.cons_append, List.append_assoc]
    refine Parses.whenAccepted (by decide) rfl ?_
    refine (second.parses_expression reads.1 _ next).bind fun other following => ?_
    refine Parses.unlessAccepted (by decide) (closer_apart next).2.2.2.2.2.1 ?_
    refine (parses_laterElements reads.2 rfl (by simp [aheadOf, Word.fixed])).bind fun rest further => ?_
    refine (parses_listEnd start _).mono ?_
    rintro _ ⟨span, rfl⟩
    exact ⟨one, other :: rest, span, rfl, matched, other, rest, rfl, following, further⟩

/-! Parentheses. -/

theorem parses_operatorLeads_atom (starts : startsAtom (aheadOf words) = true) :
    Parses file source further words operatorLeads words (· = false) := by
  refine Parses.ahead rfl ?_
  generalize aheadOf words = token at starts
  cases token <;> first | exact Parses.pure rfl | cases starts

/-- A sign leads only if it stands alone in the parentheses. -/
theorem parses_operatorLeads_sign {sign next : Word} (minus : sign.token = .minus) :
    Parses file source further (sign :: next :: later) operatorLeads (sign :: next :: later)
      (· = decide (next.token = .closeParen)) := by
  refine Sees.parses fun place tokens marks _ => ?_
  cases marks with
  | @cons _ _ one _ _ _ _ marks =>
  cases marks with
  | @cons _ _ two _ tokens _ _ marks =>
  refine sees_ahead.bind ?_
  rw [show aheadOf (sign :: next :: later) = .minus from minus]
  exact (sees_peek (by decide) (by decide) rfl).bind (Sees.pure _)

/-- A chain behind an opening parenthesis does not start with an operator. -/
theorem parses_operatorLeads_chain (chain : Chain) (later : List Word) :
    Parses file source further (chain.words spacing false ++ later) operatorLeads
      (chain.words spacing false ++ later) (· = false) := by
  rw [chain.words_eq, List.append_assoc]
  cases found : chain.first with
  | applied function atoms =>
    rw [Operand.words, List.append_assoc]
    exact parses_operatorLeads_atom (function.starts spacing false _)
  | negated function atoms =>
    obtain ⟨next, others, split, starts⟩ := function.words_head spacing spacing.afterSign
    have other : decide (next.token = .closeParen) = false := by
      rw [decide_eq_false_iff_not]
      intro closes
      rw [closes] at starts
      cases starts
    rw [Operand.words, split, ← other]
    exact parses_operatorLeads_sign rfl

/-- An operator of one part leads, and a sign does if nothing follows it. -/
theorem parses_operatorLeads_operator (operator : Infix) (plain : operator.isQualified = false)
    {next : Word} (alone : operator.isSign = false ∨ next.token = .closeParen) :
    Parses file source further (operator.words false ++ next :: later) operatorLeads
      (operator.words false ++ next :: later) (· = true) := by
  cases operator with
  | quoted name => exact Parses.ahead rfl (Parses.pure rfl)
  | symbol operator =>
    obtain ⟨qualifiers, symbol, apart⟩ := operator
    obtain rfl : qualifiers = [] := by simpa [Infix.isQualified] using plain
    have known := symbolToken_isOperator symbol.property
    by_cases minus : symbolToken symbol.val = .minus
    · have sign : (Infix.symbol ⟨[], symbol, apart⟩).isSign = true := by
        simp [Infix.isSign, known.sign.1 minus]
      have closes := alone.resolve_left (by simp [sign])
      have leads := @parses_operatorLeads_sign file source further later
        ⟨symbolToken symbol.val, symbol.val, false⟩ next minus
      rw [decide_eq_true closes] at leads
      exact leads
    · have ahead : aheadOf (⟨symbolToken symbol.val, symbol.val, false⟩ :: next :: later) =
          symbolToken symbol.val := rfl
      refine Parses.ahead ahead ?_
      by_cases constructor : (symbolToken symbol.val).isConstructorOperator = true
      · rw [if_pos (Or.inl constructor)]
        exact Parses.pure rfl
      · have named : (symbolToken symbol.val).isVariableOperator = true := by
          simpa [Token.isOperator, constructor] using known.operator
        have backtick : symbolToken symbol.val ≠ .backtick := by
          intro same
          rw [same] at named
          cases named
        rw [if_neg (by simp [constructor, backtick]), if_neg minus]
        exact Parses.pure named

theorem parses_leftSectionEnd {inner : Level} {start firstStart : Span} {left : Expr}
    {pending : Option Name} {named : Name → Prop}
    (operator : Parses file source further words (pendingOperator pending)
      (.fixed .closeParen false :: later) fun found => ∃ name, found = some name ∧ named name) :
    Parses file source further words (afterFirstOperand inner start firstStart (left, pending)) later
      fun expr => ∃ name span, expr = .leftSection left name span ∧ named name := by
  refine (parses_chainFrom_section operator rfl).bind ?_
  rintro _ ⟨name, rfl, naming⟩
  exact Parses.consume (Parses.spanFrom fun span => Parses.pure ⟨name, span, rfl, naming⟩)

/-- Behind a leading operator a closing parenthesis or the operand of a section follows. -/
theorem parses_operatorAlone {inner : Level} (start : Span) (operator : Name) :
    Parses file source further (.fixed .closeParen false :: later)
      (afterLeadingOperator inner start operator) later (· = .identifier operator) :=
  Parses.whenAccepted (by decide) rfl (Parses.pure rfl)

theorem parses_rightSection {chain : Chain} (read : chain.IsRead spacing file source further)
    (start : Span) (operator : Name) :
    Parses file source further (chain.words spacing true ++ .fixed .closeParen false :: later)
      (afterLeadingOperator (level further) start operator) later fun expr =>
        ∃ content span, expr = .rightSection operator content span ∧
          chain.Matches (Span.Shows file source) content := by
  refine Parses.unlessAccepted (by decide) (chain.ahead_ne spacing _ _ rfl (by decide)) ?_
  refine (chain.parses read true rfl).bind fun content matched => ?_
  exact Parses.decided (parses_expectOrSkipTo (by decide) rfl)
    (Parses.spanFrom fun span => Parses.pure ⟨content, span, rfl, matched⟩)

theorem parses_parentheses_operator (operator : Infix) {next : Word} {gap : Bool}
    {holds : Expr → Prop} (alone : operator.isSign = false ∨ next.token = .closeParen)
    (loose : Loose (next :: later))
    (goesOn : ∀ start name, operator.Matches (Span.Shows file source) name →
      Parses file source further (next :: later)
        (afterLeadingOperator (level further) start name) after holds) :
    Parses file source further (.fixed .openParen gap :: (operator.words false ++ next :: later))
      (parentheses (level further)) after holds := by
  obtain ⟨word, others, split, -, kind⟩ := operator.words_head false
  have ahead : aheadOf (operator.words false ++ next :: later) = word.token := by
    rw [split]
    rfl
  have other : ∀ {token : Token}, token.isOperator = false → token ≠ .properIdentifier →
      token ≠ .backtick → aheadOf (operator.words false ++ next :: later) ≠ token := by
    intro token plain proper backtick same
    rw [← ahead, same] at kind
    rcases kind with named | upper | quoted
    · cases plain.symm.trans named
    · exact proper upper
    · exact backtick quoted
  refine Parses.start fun start => Parses.consume ?_
  refine Parses.unlessAccepted (by decide) (other rfl (by decide) (by decide)) ?_
  refine Parses.unlessAt (other rfl (by decide) (by decide)) ?_
  by_cases plain : operator.isQualified = false
  · refine Parses.decided (parses_operatorLeads_operator operator plain alone) ?_
    refine (operator.parses plain false).bind ?_
    rintro _ ⟨name, rfl, matched⟩
    exact goesOn start name matched
  · cases operator with
    | quoted name => exact absurd rfl plain
    | symbol operator =>
      have qualified : operator.qualifiers ≠ [] := by simpa [Infix.isQualified] using plain
      have proper : aheadOf ((Infix.symbol operator).words false ++ next :: later) =
          .properIdentifier := operator.ahead_qualified qualified false _
      refine Parses.decided (parses_operatorLeads_atom (by rw [proper]; rfl)) ?_
      refine Parses.start fun firstStart => Parses.whenAt proper ?_
      refine (operator.parses_term false loose).bind ?_
      rintro _ ⟨name, rfl, matched⟩
      exact goesOn start name matched

theorem parses_parentheses_chain {chain : Chain}
    (read : chain.IsRead spacing file source further) {gap : Bool}
    {pending : Option Name → Prop} {holds : Expr → Prop} (follows : Follows later)
    (stops : Stops file source further (level further) later after pending)
    (goesOn : ∀ start firstStart value operator,
      chain.Matches (Span.Shows file source) value → pending operator →
        Parses file source further after
          (afterFirstOperand (level further) start firstStart (value, operator)) final holds) :
    Parses file source further (.fixed .openParen gap :: (chain.words spacing false ++ later))
      (parentheses (level further)) final holds := by
  refine Parses.start fun start => Parses.consume ?_
  refine Parses.unlessAccepted (by decide) (chain.ahead_ne spacing _ _ rfl (by decide)) ?_
  refine Parses.unlessAt (chain.ahead_ne spacing _ _ rfl (by decide)) ?_
  refine Parses.decided (parses_operatorLeads_chain chain later) ?_
  refine Parses.start fun firstStart => ?_
  obtain ⟨between, met, followed, here, last⟩ :=
    chain.continues read true firstStart _ follows stops (goesOn start firstStart)
  have first := chain.first_isRead read
  rw [chain.words_eq, List.append_assoc]
  generalize chain.first = operand at first last ⊢
  by_cases proper : aheadOf (operand.words spacing false ++ (chain.tail spacing ++ later)) =
      .properIdentifier
  · refine Parses.whenAt proper ?_
    cases operand with
    | negated function atoms => cases proper
    | applied function atoms =>
      rw [Operand.words, List.append_assoc] at proper ⊢
      obtain ⟨name, rfl⟩ := Atom.exists_name proper
      refine (name.parses_term false (follows_argumentWords atoms followed).loose).bind ?_
      rintro _ ⟨found, rfl, matched⟩
      have function : (Atom.name name).Matches (Span.Shows file source) (.identifier found) :=
        ⟨found, rfl, matched⟩
      refine (parses_arguments first.2 followed here firstStart function).bind ?_
      rintro ⟨value, operator⟩ ⟨applied, taken⟩
      exact last value operator applied taken
  · refine Parses.unlessAt proper ?_
    refine (Operand.parses first false followed here).bind ?_
    rintro ⟨value, operator⟩ ⟨matched, taken⟩
    exact last value operator matched taken

/-! Atoms. -/

theorem isRead_name (name : Identifier) :
    (Atom.name name).IsRead spacing file source further := by
  intro gap later follows
  obtain ⟨qualifiers, last⟩ := name
  by_cases plain : qualifiers = [] ∧ wordToken last.val = .identifier
  · obtain ⟨rfl, token⟩ := plain
    have ahead : aheadOf (⟨wordToken last.val, last.val, gap⟩ :: later) = .identifier := token
    refine Parses.ahead ahead ?_
    have read : Parses file source further (⟨wordToken last.val, last.val, gap⟩ :: later)
        variableIdentifier later (IsPart file source last.val) := by
      rw [token]
      exact parses_nameAt (by decide) last.val gap
    refine Parses.start fun start => read.bind fun name part => ?_
    exact Parses.unlessAccepted (by decide) follows.unaliased (Parses.pure ⟨name, rfl, part⟩)
  · have ahead : aheadOf ((Identifier.mk qualifiers last).words gap ++ later) =
        .properIdentifier := by
      cases qualifiers with
      | cons qualifier others => rfl
      | nil =>
        change wordToken last.val = _
        rw [wordToken] at plain ⊢
        split at plain <;> simp_all
    refine Parses.ahead ahead ?_
    exact (Identifier.parses ⟨qualifiers, last⟩ gap follows.loose).bind fun name matched =>
      Parses.pure ⟨name, rfl, matched⟩

theorem parses_literal {token : Token} (isLiteral : token.isLiteral = true) (text : List Char)
    (gap : Bool) :
    Parses file source further (⟨token, text, gap⟩ :: later) literal later fun expr =>
      ∃ kind span, expr = .literal kind span ∧ span.Shows file source text ∧
        literalKind? token = some kind := by
  obtain ⟨kind, known⟩ : ∃ kind, literalKind? token = some kind := by
    cases token <;> first | exact ⟨_, rfl⟩ | cases isLiteral
  have ahead : aheadOf (⟨token, text, gap⟩ :: later) = token := rfl
  refine Parses.ahead ahead ?_
  rw [known]
  exact Parses.aheadSpan fun span shows => Parses.consume (Parses.pure ⟨kind, span, rfl, shows, rfl⟩)

theorem isRead_literal (text : Spelling isLiteralText) :
    (Atom.literal text).IsRead spacing file source further := by
  intro gap later follows
  have isLiteral := literalToken_isLiteral (whole_of_literal text.property).1
  have ahead : aheadOf (⟨literalToken text.val, text.val, gap⟩ :: later) = literalToken text.val := rfl
  have read : Parses file source further ((Atom.literal text).words spacing gap ++ later) literal later
      ((Atom.literal text).Matches (Span.Shows file source)) := parses_literal isLiteral text.val gap
  refine Parses.ahead ahead ?_
  generalize literalToken text.val = token at isLiteral
  cases token <;> first | (cases isLiteral; done) | exact read

theorem parses_parenthesized {holds : Expr → Prop} {gap : Bool}
    (parses : Parses file source further (.fixed .openParen gap :: words)
      (parentheses (level further)) after holds) :
    Parses file source (further + 1) (.fixed .openParen gap :: words)
      (Grammar.atom (level (further + 1))) after holds :=
  Parses.ahead rfl (parses_nested parses)

theorem parses_bracketed {holds : Expr → Prop} {gap : Bool}
    (parses : Parses file source further (.fixed .openBracket gap :: words)
      (brackets (level further)) after holds) :
    Parses file source (further + 1) (.fixed .openBracket gap :: words)
      (Grammar.atom (level (further + 1))) after holds :=
  Parses.ahead rfl (parses_nested parses)

theorem isRead_operator (operator : Operator) :
    (Atom.operator operator).IsRead spacing file source (further + 1) := by
  intro gap later follows
  rw [Atom.words, enclosed_append]
  have closed : Follows (.fixed .closeParen false :: later) := follows_of_closer rfl
  refine parses_parenthesized (parses_parentheses_operator (.symbol operator) (Or.inr rfl)
    closed.loose fun start name matched => ?_)
  refine (parses_operatorAlone start name).mono ?_
  rintro _ rfl
  exact ⟨name, rfl, matched⟩

theorem isRead_unit : Atom.unit.IsRead spacing file source (further + 1) := by
  intro gap later follows
  refine parses_parenthesized (Parses.start fun start => Parses.consume ?_)
  exact Parses.whenAccepted (by decide) rfl (Parses.spanFrom fun span => Parses.pure ⟨span, rfl⟩)

theorem isRead_emptyList : Atom.emptyList.IsRead spacing file source (further + 1) :=
  fun gap _ _ => parses_bracketed (@parses_emptyList spacing file source further _ (level further) gap)

theorem isRead_list {first : Chain} {chains : List Chain}
    (read : first.IsRead spacing file source further)
    (reads : ∀ chain ∈ chains, chain.IsRead spacing file source further) :
    (Atom.list first chains).IsRead spacing file source (further + 2) :=
  fun gap _ _ => parses_bracketed (parses_list read reads gap)

theorem isRead_parenthesized {inner : Chain} (read : inner.IsRead spacing file source further) :
    (Atom.parenthesized inner).IsRead spacing file source (further + 1) := by
  intro gap later follows
  rw [Atom.words, enclosed_append]
  have stops : Stops file source further (level further) (.fixed .closeParen false :: later)
      (.fixed .closeParen false :: later) (· = none) := stops_of_ahead rfl
  refine parses_parenthesized (parses_parentheses_chain read (follows_of_closer rfl) stops ?_)
  rintro start firstStart value _ matched rfl
  refine (parses_closed rfl).bind ?_
  rintro _ rfl
  refine (parses_annotated rfl).bind ?_
  rintro value rfl
  refine Parses.unlessAt (by simp [aheadOf, Word.fixed]) ?_
  exact Parses.decided (parses_expectOrSkipTo (by decide) rfl)
    (Parses.spanFrom fun span => Parses.pure ⟨value, span, rfl, matched⟩)

theorem isRead_tuple {first second : Chain} {chains : List Chain}
    (read : first.IsRead spacing file source (further + 1))
    (reads : ∀ chain ∈ second :: chains, chain.IsRead spacing file source further) :
    (Atom.tuple first second chains).IsRead spacing file source (further + 2) := by
  intro gap later follows
  have elements : (Atom.tuple first second chains).words spacing gap ++ later =
      .fixed .openParen gap :: (first.words spacing false ++
        (Chain.laterWords spacing (second :: chains) ++ .fixed .closeParen false :: later)) := by
    simp [Atom.words, enclosed_append, Chain.laterWords]
  have stops : Stops file source (further + 1) (level (further + 1))
      (Chain.laterWords spacing (second :: chains) ++ .fixed .closeParen false :: later)
      (Chain.laterWords spacing (second :: chains) ++ .fixed .closeParen false :: later)
      (· = none) := stops_of_ahead rfl
  rw [elements]
  refine parses_parenthesized (parses_parentheses_chain read (follows_of_closer rfl) stops ?_)
  rintro start firstStart one _ matched rfl
  refine (parses_closed rfl).bind ?_
  rintro _ rfl
  refine (parses_annotated rfl).bind ?_
  rintro one rfl
  refine Parses.whenAt rfl ?_
  refine (parses_laterElements reads rfl (by simp [aheadOf, Word.fixed])).bind ?_
  rintro _ ⟨other, rest, rfl, following, others⟩
  exact Parses.decided (parses_expectOrSkipTo (by decide) rfl)
    (Parses.spanFrom fun span => Parses.pure ⟨one, other, rest, span, rfl, matched, following, others⟩)

theorem isRead_leftSection {operand : Chain} (operator : Infix)
    (read : operand.IsRead spacing file source further) :
    (Atom.leftSection operand operator).IsRead spacing file source (further + 1) := by
  intro gap later follows
  have closed : Follows (.fixed .closeParen false :: later) := follows_of_closer rfl
  obtain ⟨after, pending, stops, -, names⟩ :=
    @Infix.stops file source further _ (level further) operator closed.loose
  rw [Atom.words, enclosed_append, List.append_assoc]
  refine parses_parenthesized (parses_parentheses_chain read (operator.follows _) stops ?_)
  intro start firstStart value found matched taken
  refine (parses_leftSectionEnd (names found taken)).mono ?_
  rintro _ ⟨name, span, rfl, naming⟩
  exact ⟨value, name, span, rfl, matched, naming⟩

theorem isRead_rightSection {operand : Chain} (operator : Infix)
    (unsigned : operator.isSign = false) (read : operand.IsRead spacing file source further) :
    (Atom.rightSection operator unsigned operand).IsRead spacing file source (further + 1) := by
  intro gap later follows
  obtain ⟨next, others, split, starts⟩ := operand.words_head spacing true
  have closes := fun start name => @parses_rightSection spacing file source further later operand
    read start name
  have loose : Loose (operand.words spacing true ++ .fixed .closeParen false :: later) := by
    rw [split]
    exact (@follows_of_operand (next :: others ++ _) starts).loose
  rw [Atom.words, enclosed_append, List.append_assoc]
  rw [split, List.cons_append] at closes loose ⊢
  refine parses_parenthesized (parses_parentheses_operator operator (Or.inl unsigned) loose ?_)
  intro start name naming
  refine (closes start name).mono ?_
  rintro _ ⟨content, span, rfl, matched⟩
  exact ⟨name, content, span, rfl, naming, matched⟩

/-! Every tree is read back if there are two further levels for each bracket around its innermost
parts: one for the bracket itself, and one for an element behind a comma. -/

section Trees

variable (spacing file source)

mutual

theorem Atom.isRead (atom : Atom) {further : Nat} (room : 2 * atom.nesting ≤ further) :
    atom.IsRead spacing file source further := by
  cases atom with
  | name name => exact isRead_name name
  | literal text => exact isRead_literal text
  | operator operator =>
    obtain ⟨further, rfl⟩ := Nat.exists_eq_add_of_le' (Nat.le_of_succ_le room)
    exact isRead_operator operator
  | unit =>
    obtain ⟨further, rfl⟩ := Nat.exists_eq_add_of_le' (Nat.le_of_succ_le room)
    exact isRead_unit
  | tuple first second later =>
    rw [Atom.nesting] at room
    obtain ⟨further, rfl⟩ := Nat.exists_eq_add_of_le' (show 2 ≤ further by omega)
    exact isRead_tuple (first.isRead (by omega))
      (List.forall_mem_cons.2 ⟨second.isRead (by omega), Chain.areRead later (by omega)⟩)
  | emptyList =>
    obtain ⟨further, rfl⟩ := Nat.exists_eq_add_of_le' (Nat.le_of_succ_le room)
    exact isRead_emptyList
  | list first later =>
    rw [Atom.nesting] at room
    obtain ⟨further, rfl⟩ := Nat.exists_eq_add_of_le' (show 2 ≤ further by omega)
    exact isRead_list (first.isRead (by omega)) (Chain.areRead later (by omega))
  | parenthesized inner =>
    rw [Atom.nesting] at room
    obtain ⟨further, rfl⟩ := Nat.exists_eq_add_of_le' (show 1 ≤ further by omega)
    exact isRead_parenthesized (inner.isRead (by omega))
  | leftSection operand operator =>
    rw [Atom.nesting] at room
    obtain ⟨further, rfl⟩ := Nat.exists_eq_add_of_le' (show 1 ≤ further by omega)
    exact isRead_leftSection operator (operand.isRead (by omega))
  | rightSection operator unsigned operand =>
    rw [Atom.nesting] at room
    obtain ⟨further, rfl⟩ := Nat.exists_eq_add_of_le' (show 1 ≤ further by omega)
    exact isRead_rightSection operator unsigned (operand.isRead (by omega))

theorem Atom.areRead (atoms : List Atom) {further : Nat} (room : 2 * Atom.listNesting atoms ≤ further) :
    ∀ atom ∈ atoms, atom.IsRead spacing file source further := by
  cases atoms with
  | nil => simp
  | cons atom later =>
    rw [Atom.listNesting] at room
    exact List.forall_mem_cons.2 ⟨atom.isRead (by omega), Atom.areRead later (by omega)⟩

theorem Operand.isRead (operand : Operand) {further : Nat} (room : 2 * operand.nesting ≤ further) :
    operand.IsRead spacing file source further := by
  cases operand with
  | applied function atoms =>
    rw [Operand.nesting] at room
    exact ⟨function.isRead (by omega), Atom.areRead atoms (by omega)⟩
  | negated function atoms =>
    rw [Operand.nesting] at room
    exact ⟨function.isRead (by omega), Atom.areRead atoms (by omega)⟩

theorem Chain.isRead (chain : Chain) {further : Nat} (room : 2 * chain.nesting ≤ further) :
    chain.IsRead spacing file source further := by
  cases chain with
  | operand only => exact only.isRead room
  | binary left operator right =>
    rw [Chain.nesting] at room
    exact ⟨left.isRead (by omega), right.isRead (by omega)⟩

theorem Chain.areRead (chains : List Chain) {further : Nat}
    (room : 2 * Chain.listNesting chains ≤ further) :
    ∀ chain ∈ chains, chain.IsRead spacing file source further := by
  cases chains with
  | nil => simp
  | cons chain later =>
    rw [Chain.listNesting] at room
    exact List.forall_mem_cons.2 ⟨chain.isRead (by omega), Chain.areRead later (by omega)⟩

end

end Trees

end Brackets

end Offside.Haskell.Core
