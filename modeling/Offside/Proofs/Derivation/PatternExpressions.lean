import Offside.Proofs.Derivation.PatternProductions

/-!
Derived patterns as they are read where an expression may stand. The levels that they take there differ:
an operator takes none, since a chain goes on by itself, and a bracket around a list takes two, one for
itself and one for the expression inside.

An argument behind a constructor is told by the token that it starts with. A tilde is no such token for
expressions, so a pattern is read only if its arguments do not start with one.
-/

namespace Offside.Haskell.Core

set_option autoImplicit false

open Offside.Lexical Offside.Parse Offside.Haskell.Grammar

/-! How many levels a pattern takes as an expression. -/

mutual

def PatternAtom.levels : PatternAtom → Nat
  | .named _ | .constructor _ | .literal _ _ | .wildcard => 0
  | .aliased _ atom => atom.levels + 1
  | .irrefutable atom => atom.levels + 1
  | .unit | .tupleConstructor _ | .symbol _ _ | .emptyList => 1
  | .parenthesized inner => inner.levels + 1
  | .tuple first second later =>
    max first.levels (max second.levels (PatternForm.listLevels later) + 1) + 1
  | .list first later => max first.levels (PatternForm.listLevels later) + 2

def PatternAtom.listLevels : List PatternAtom → Nat
  | [] => 0
  | atom :: later => max atom.levels (PatternAtom.listLevels later)

def PatternOperand.levels : PatternOperand → Nat
  | .negative _ _ => 0
  | .applied function arguments => max function.levels (PatternAtom.listLevels arguments)

def PatternForm.levels : PatternForm → Nat
  | .operand operand => operand.levels
  | .binary left _ right => max left.levels right.levels

def PatternForm.listLevels : List PatternForm → Nat
  | [] => 0
  | form :: later => max form.levels (PatternForm.listLevels later)

end

/-! No argument of a constructor starts with a tilde. -/

mutual

def PatternAtom.IsPlain : PatternAtom → Prop
  | .aliased _ atom => atom.IsPlain
  | .irrefutable atom => atom.IsPlain
  | .parenthesized inner => inner.IsPlain
  | .tuple first second later => first.IsPlain ∧ second.IsPlain ∧ PatternForm.ArePlain later
  | .list first later => first.IsPlain ∧ PatternForm.ArePlain later
  | _ => True

def PatternAtom.ArePlainArguments : List PatternAtom → Prop
  | [] => True
  | atom :: later =>
    atom.isIrrefutable = false ∧ atom.IsPlain ∧ PatternAtom.ArePlainArguments later

def PatternOperand.IsPlain : PatternOperand → Prop
  | .negative _ _ => True
  | .applied function arguments => function.IsPlain ∧ PatternAtom.ArePlainArguments arguments

def PatternForm.IsPlain : PatternForm → Prop
  | .operand operand => operand.IsPlain
  | .binary left _ right => left.IsPlain ∧ right.IsPlain

def PatternForm.ArePlain : List PatternForm → Prop
  | [] => True
  | form :: later => form.IsPlain ∧ PatternForm.ArePlain later

end

section Reading

variable (file : FileId) (source : List Char) (further : Nat)

def PatternAtom.IsExpression (atom : PatternAtom) : Prop :=
  ∀ words later, atom.Derives words → Follows later →
    Parses file source further (words ++ later) (Grammar.atom (level further)) later fun _ => True

def PatternOperand.IsExpression : PatternOperand → Prop
  | .negative _ _ => True
  | .applied function atoms =>
    function.IsExpression file source further ∧
      (∀ atom ∈ atoms, atom.IsExpression file source further) ∧
        PatternAtom.ArePlainArguments atoms

def PatternForm.IsExpression : PatternForm → Prop
  | .operand only => only.IsExpression file source further
  | .binary left _ right => left.IsExpression file source further ∧ right.IsExpression

end Reading

section Productions

variable {file : FileId} {source : List Char} {further room : Nat}
  {words later after final : List Word} {token : Token} {pending : Option Name → Prop}

/-! Names. -/

theorem Dotted.parses_term {name : Dotted} (constructor : name.isConstructor = true)
    (derives : name.Derives words) (loose : Loose later) :
    Parses file source room (words ++ later) qualifiedTerm later
      fun term => ∃ found, term = .operand found := by
  obtain ⟨gap, dotted⟩ := derives
  have kind := name.kind constructor
  have qualifiable : isQualifiable name.token = true := by
    rcases kind with same | same <;> (rw [same]; rfl)
  have word : name.token.isOperator = false := by
    rcases kind with same | same <;> (rw [same]; rfl)
  refine (dotted.parses_segments qualifiable loose).bind fun segments stand => ?_
  refine Parses.ahead rfl ?_
  rw [if_neg (by simp [aheadOf, word])]
  refine (name.parses_last constructor _).bind fun found part => ?_
  obtain ⟨whole, made, -⟩ := ofSegments_isNamed stand part.inFile part
  rw [ofSegments, made]
  exact Parses.pure ⟨whole, rfl⟩

/-- A constructor symbol without a qualifier, where any operator may stand. -/
theorem parses_unqualifiedOperator {text : List Char} (symbol : token.isConstructorOperator = true)
    (gap : Bool) :
    Parses file source room (⟨token, text, gap⟩ :: later) operator? later
      fun found => ∃ name, found = some name := by
  have ahead : aheadOf (⟨token, text, gap⟩ :: later) = token := rfl
  refine Parses.ahead ahead ?_
  rw [if_pos (by rw [Token.isOperator, symbol, Bool.or_true])]
  have read : Parses file source room (⟨token, text, gap⟩ :: later) Grammar.symbol later
      fun _ => True := by
    refine Parses.ahead ahead ?_
    rw [if_pos symbol]
    exact (parses_constructorSymbol symbol gap).mono fun _ _ => trivial
  exact read.bind fun name _ => Parses.pure ⟨name, rfl⟩

/-! Atoms. -/

theorem isExpression_named (text : List Char) :
    (PatternAtom.named text).IsExpression file source further := by
  rintro words later ⟨gap, rfl⟩ follows
  refine Parses.ahead rfl (Parses.start fun start => ?_)
  refine (parses_nameAt (by decide) text gap).bind fun name _ => ?_
  exact Parses.unlessAccepted (by decide) follows.unaliased (Parses.pure trivial)

theorem isExpression_aliased {atom : PatternAtom} (text : List Char)
    (read : atom.IsExpression file source further) :
    (PatternAtom.aliased text atom).IsExpression file source (further + 1) := by
  rintro words later ⟨gap, _, rfl, sign, own, rfl, kind, derives⟩ follows
  refine Parses.ahead rfl (Parses.start fun start => ?_)
  refine (parses_nameAt (by decide) text gap).bind fun name _ => ?_
  refine Parses.whenAccepted (by decide) kind ?_
  refine (parses_nested (read own later derives follows)).bind fun inner _ => ?_
  exact Parses.spanFrom fun span => Parses.pure trivial

theorem isExpression_irrefutable {atom : PatternAtom}
    (read : atom.IsExpression file source further) :
    (PatternAtom.irrefutable atom).IsExpression file source (further + 1) := by
  rintro words later ⟨sign, own, rfl, kind, derives⟩ follows
  refine Parses.ahead kind (Parses.start fun start => Parses.consume ?_)
  refine (parses_nested (read own later derives follows)).bind fun inner _ => ?_
  exact Parses.spanFrom fun span => Parses.pure trivial

theorem isExpression_constructor (name : Dotted) :
    (PatternAtom.constructor name).IsExpression file source further := by
  rintro words later ⟨constructor, derives⟩ follows
  have read : Parses file source further (words ++ later) qualifiedIdentifier later
      (name.Matches file source) := name.parses constructor derives follows.loose
  obtain ⟨word, rest, rfl, kind⟩ := name.head constructor derives
  exact Parses.ahead kind (read.bind fun found _ => Parses.pure trivial)

theorem isExpression_literal (text : List Char) :
    (PatternAtom.literal token text).IsExpression file source further := by
  intro words later literal follows
  have read : Parses file source further (words ++ later) Grammar.literal later fun _ => True :=
    (parses_literalPattern literal).mono fun _ _ => trivial
  obtain ⟨known, gap, rfl⟩ := literal
  have ahead : aheadOf ([⟨token, text, gap⟩] ++ later) = token := rfl
  refine Parses.ahead ahead ?_
  generalize token = token at known read ⊢
  cases token <;> first | (cases known; done) | exact read

theorem isExpression_wildcard : PatternAtom.wildcard.IsExpression file source further := by
  rintro words later ⟨word, _, rfl, kind, rfl⟩ follows
  exact Parses.ahead kind (Parses.start fun span => Parses.consume (Parses.pure trivial))

theorem parses_inParens {opening : Word} {holds : Expr → Prop} (opens : opening.token = .openParen)
    (parses : Parses file source further (opening :: words) (parentheses (level further)) after
      holds) :
    Parses file source (further + 1) (opening :: words) (Grammar.atom (level (further + 1))) after
      holds :=
  Parses.ahead opens (parses_nested parses)

theorem isExpression_unit : PatternAtom.unit.IsExpression file source (further + 1) := by
  intro words later derives follows
  obtain ⟨first, content, last, split, opens, closes, rfl⟩ := derives.split later
  rw [split]
  refine parses_inParens opens (Parses.start fun start => Parses.consume ?_)
  exact Parses.whenAccepted (by decide) closes
    (Parses.spanFrom fun span => Parses.pure trivial)

theorem isExpression_tupleConstructor (count : Nat) :
    (PatternAtom.tupleConstructor count).IsExpression file source (further + 1) := by
  intro words later derives follows
  obtain ⟨first, content, last, split, opens, closes, commas⟩ := derives.split later
  rw [split]
  have comma := aheadOf_commas commas (last :: later)
  refine parses_inParens opens (Parses.start fun start => Parses.consume ?_)
  refine Parses.unlessAccepted (by decide) (by rw [comma]; decide) (Parses.whenAt comma ?_)
  exact (parses_commas commas closes start).mono fun _ _ => trivial

theorem isExpression_symbol (text : List Char) :
    (PatternAtom.symbol token text).IsExpression file source (further + 1) := by
  rintro words later ⟨symbol, encloses⟩ follows
  obtain ⟨first, content, last, split, opens, closes, gap, rfl⟩ := encloses.split later
  obtain ⟨-, -, -, -, -, paren, comma⟩ := constructorOperator_facts symbol
  have ahead : aheadOf (⟨token, text, gap⟩ :: last :: later) = token := rfl
  rw [split]
  refine parses_inParens opens (Parses.start fun start => Parses.consume ?_)
  refine Parses.unlessAccepted (by decide) paren (Parses.unlessAt comma ?_)
  have leads : Parses file source further (⟨token, text, gap⟩ :: last :: later) operatorLeads
      (⟨token, text, gap⟩ :: last :: later) (· = true) := by
    refine Parses.ahead ahead ?_
    rw [if_pos (Or.inl symbol)]
    exact Parses.pure rfl
  refine Parses.decided leads ?_
  rw [if_pos rfl]
  refine (parses_unqualifiedOperator symbol gap).bind ?_
  rintro _ ⟨name, rfl⟩
  exact Parses.whenAccepted (by decide) closes (Parses.pure trivial)

/-! Operands. -/

theorem PatternAtom.starts {atom : PatternAtom} (derives : atom.Derives words)
    (plain : atom.isIrrefutable = false) : startsAtom (aheadOf (words ++ later)) = true := by
  obtain ⟨word, rest, rfl, starts⟩ := atom.head derives
  have other : word.token ≠ .tilde := by
    intro tilde
    have headed : ∀ {first behind}, first ≠ .tilde → ¬Heads first behind (word :: rest) := by
      rintro first behind different ⟨_, _, split, kind, -⟩
      cases split
      exact different (kind.symm.trans tilde)
    cases atom with
    | irrefutable atom => cases plain
    | named text =>
      obtain ⟨gap, split⟩ := derives
      cases split
      cases tilde
    | aliased text atom =>
      obtain ⟨gap, behind, split, -⟩ := derives
      cases split
      cases tilde
    | constructor name =>
      obtain ⟨_, _, split, kind⟩ := name.head derives.1 derives.2
      cases split
      cases kind.symm.trans tilde
    | literal token text =>
      obtain ⟨known, gap, split⟩ := derives
      cases split
      rw [show token = .tilde from tilde] at known
      cases known
    | symbol token text => exact headed (by decide) derives.2
    | _ => exact headed (by decide) derives
  change startsAtom word.token = true
  generalize word.token = token at starts other
  cases token <;> first | exact (other rfl).elim | rfl | cases starts

theorem PatternAtom.parses_argument {atom : PatternAtom}
    (read : atom.IsExpression file source further) (derives : atom.Derives words)
    (follows : Follows later) :
    Parses file source further (words ++ later) (argument (level further)) later
      fun found => ∃ value, found = .inl value := by
  obtain ⟨word, rest, split, -⟩ := atom.head derives
  by_cases proper : aheadOf (words ++ later) = .properIdentifier
  · refine Parses.whenAt proper ?_
    obtain ⟨name, rfl⟩ := atom.exists_constructor derives (by rw [split] at proper ⊢; exact proper)
    refine (name.parses_term derives.1 derives.2 follows.loose).bind ?_
    rintro _ ⟨found, rfl⟩
    exact Parses.pure ⟨_, rfl⟩
  · refine Parses.unlessAt proper ?_
    exact (read words later derives follows).bind fun value _ => Parses.pure ⟨value, rfl⟩

/-- By induction on the arguments: the loop takes them all and then what stops it. -/
theorem parses_argumentsLoop {atoms : List PatternAtom}
    (reads : ∀ atom ∈ atoms, atom.IsExpression file source further)
    (plain : PatternAtom.ArePlainArguments atoms) (derive : PatternAtom.ListDerives atoms words)
    (follows : Follows later)
    (stops : Stops file source further (level further) later after pending) :
    Follows (words ++ later) ∧
      Parses file source further (words ++ later)
        (repeatUntil (do return startsAtom (← ahead)) (argument (level further))) after
        fun found => pending found.2 := by
  induction atoms generalizing words with
  | nil =>
    obtain rfl : words = [] := derive
    exact ⟨follows, stops.parses.mono fun _ found => found.2⟩
  | cons atom others induction =>
    rw [List.forall_mem_cons] at reads
    obtain ⟨tight, -, plain⟩ := plain
    obtain ⟨own, rest, rfl, derives, derive⟩ := derive
    obtain ⟨followed, loop⟩ := induction reads.2 plain derive
    have starts := @PatternAtom.starts own (rest ++ later) atom derives tight
    rw [List.append_assoc]
    have asked : Parses file source further (own ++ (rest ++ later))
        (do return startsAtom (← ahead)) (own ++ (rest ++ later)) (· = true) :=
      Parses.ahead rfl (Parses.pure starts)
    refine ⟨follows_of_startsAtom starts, ?_⟩
    have fewer : (rest ++ later).length < (own ++ (rest ++ later)).length := by
      obtain ⟨word, more, split, -⟩ := atom.head derives
      rw [split]
      simp only [List.length_append, List.length_cons]
      omega
    have argument : Parses file source further (own ++ (rest ++ later)) (argument (level further))
        (rest ++ later) fun found => ∃ value, found = .inl value ∧ True :=
      (PatternAtom.parses_argument reads.1 derives followed).mono fun found held =>
        held.imp fun value same => ⟨same, trivial⟩
    refine (parses_repeat_step asked argument fewer loop).mono ?_
    rintro _ ⟨value, others, rfl, -, held⟩
    exact held

theorem parses_operandArguments {atoms : List PatternAtom} {function : Expr}
    (reads : ∀ atom ∈ atoms, atom.IsExpression file source further)
    (plain : PatternAtom.ArePlainArguments atoms) (derive : PatternAtom.ListDerives atoms words)
    (follows : Follows later)
    (stops : Stops file source further (level further) later after pending) (start : Span) :
    Parses file source further (words ++ later) (arguments (level further) start function) after
      fun found => pending found.2 := by
  refine (parses_argumentsLoop reads plain derive follows stops).2.bind ?_
  rintro ⟨values, operator⟩ taken
  dsimp only
  split
  · exact Parses.pure taken
  · exact Parses.join fun span => Parses.pure taken

theorem parses_plainOperand {inner : Level} {holds : Grammar.Operand → Prop}
    (starts : startsPatternAtom (aheadOf words) = true)
    (parses : Parses file source room words (application inner) after holds) :
    Parses file source room words (signedOperand inner) after holds := by
  have minus : aheadOf words ≠ .minus := by
    intro same
    rw [same] at starts
    cases starts
  refine Parses.unlessAt minus (Parses.ahead rfl ?_)
  generalize aheadOf words = token at starts
  cases token <;> first | exact parses | cases starts

/-- An operand is read together with the operator that its arguments end with, if any. -/
theorem PatternOperand.parses {operand : PatternOperand}
    (read : operand.IsExpression file source further) (derives : operand.Derives words)
    (follows : Follows later)
    (stops : Stops file source further (level further) later after pending) :
    Parses file source further (words ++ later) (signedOperand (level further)) after
      fun found => pending found.2 := by
  cases operand with
  | negative token text =>
    obtain ⟨kind, sign, own, rfl, minus, literal⟩ := derives
    have head : (PatternAtom.literal token text).IsExpression file source further :=
      isExpression_literal text
    have number : Parses file source further (own ++ later) (application (level further)) after
        fun found => pending found.2 := by
      refine Parses.start fun start => (head own later literal follows).bind fun value _ => ?_
      exact parses_operandArguments (fun atom member => by cases member)
        (show PatternAtom.ArePlainArguments [] from trivial) rfl follows stops start
    have ahead : aheadOf (own ++ later) = token := by
      obtain ⟨-, gap, rfl⟩ := literal
      rfl
    have unsigned : Parses file source further (own ++ later) (Grammar.operand (level further))
        after fun found => pending found.2 := by
      refine Parses.ahead ahead ?_
      rcases kind with rfl | rfl <;> exact number
    refine Parses.whenAt minus (Parses.start fun start => Parses.consume (unsigned.bind ?_))
    rintro ⟨value, operator⟩ taken
    exact Parses.join fun span => Parses.pure taken
  | applied function atoms =>
    obtain ⟨head, reads, plain⟩ := read
    obtain ⟨-, own, rest, rfl, derives, derive⟩ := derives
    obtain ⟨followed, -⟩ := parses_argumentsLoop reads plain derive follows stops
    obtain ⟨word, more, split, starts⟩ := function.head derives
    rw [List.append_assoc]
    refine parses_plainOperand (by rw [split]; exact starts) (Parses.start fun start => ?_)
    refine (head own _ derives followed).bind fun value _ => ?_
    exact parses_operandArguments reads plain derive follows stops start

/-! Operators. -/

theorem parses_qualifiedSymbol {qualifier dot text : List Char} {gap : Bool}
    (symbol : token.isConstructorOperator = true) (loose : Loose later) :
    Parses file source room
      (⟨.properIdentifier, qualifier, gap⟩ :: ⟨.dot, dot, false⟩ :: ⟨token, text, false⟩ :: later)
      qualifiedTerm later fun term => ∃ name, term = .operator name := by
  have dotted := IsDotted.qualified gap qualifier dot (@IsDotted.last token text false)
  have segments : Parses file source room
      (⟨.properIdentifier, qualifier, gap⟩ :: ⟨.dot, dot, false⟩ :: ⟨token, text, false⟩ :: later)
      (many qualifierFollows Grammar.qualifier) (⟨token, text, false⟩ :: later)
      (List.Forall₂ (IsPart file source) [qualifier]) :=
    dotted.parses_segments (constructorOperator_facts symbol).1 loose
  have ahead : aheadOf (⟨token, text, false⟩ :: later) = token := rfl
  refine segments.bind fun parts stand => Parses.ahead ahead ?_
  rw [if_pos (by rw [Token.isOperator, symbol, Bool.or_true])]
  have last : Parses file source room (⟨token, text, false⟩ :: later) Grammar.symbol later
      (IsConstructorSymbol file source text) := by
    refine Parses.ahead ahead ?_
    rw [if_pos symbol]
    exact parses_constructorSymbol symbol false
  refine last.bind fun name matched => ?_
  have inFile : name.span.file = file := by
    obtain ⟨span, rfl, shows⟩ := matched
    exact shows.file
  obtain ⟨whole, made, -⟩ := ofSegments_isNamed stand inFile matched
  rw [ofSegments, made]
  exact Parses.pure ⟨whole, rfl⟩

/-- Behind an operand the operator is found, whether the arguments took it along or not. -/
theorem PatternOperator.stops {inner : Level} {operator : PatternOperator}
    (derives : operator.Derives words) (loose : Loose later) :
    ∃ after pending, Stops file source room inner (words ++ later) after pending ∧
      later.length ≤ after.length ∧ ∀ found, pending found →
        Parses file source room after (pendingOperator found) later
          fun name => ∃ known, name = some known := by
  have stays : startsAtom (aheadOf (words ++ later)) = false →
      Parses file source room (words ++ later) operator? later (fun name => ∃ known, name = some known) →
      ∃ after pending, Stops file source room inner (words ++ later) after pending ∧
        later.length ≤ after.length ∧ ∀ found, pending found →
          Parses file source room after (pendingOperator found) later
            fun name => ∃ known, name = some known := by
    intro other reads
    refine ⟨words ++ later, (· = none), stops_of_ahead other, by simp, ?_⟩
    rintro _ rfl
    exact reads
  cases operator with
  | symbol name =>
    obtain ⟨symbol, derives⟩ := derives
    have kind : name.token.isConstructorOperator = true := by
      simp only [Dotted.isConstructorSymbol, Bool.and_eq_true] at symbol
      exact symbol.1
    rcases name.symbol_cases symbol derives with ⟨-, gap, rfl⟩ | ⟨qualifier, dot, gap, -, rfl⟩
    · refine stays (isOperator_starts ?_) (parses_unqualifiedOperator kind gap)
      change (name.token.isVariableOperator || name.token.isConstructorOperator) = true
      rw [kind, Bool.or_true]
    · have asked : Parses file source room
          ([⟨.properIdentifier, qualifier, gap⟩, ⟨.dot, dot, false⟩,
            ⟨name.token, name.text, false⟩] ++ later)
          (do return startsAtom (← ahead)) _ (· = true) :=
        Parses.ahead rfl (Parses.pure rfl)
      have last : Parses file source room
          ([⟨.properIdentifier, qualifier, gap⟩, ⟨.dot, dot, false⟩,
            ⟨name.token, name.text, false⟩] ++ later) (argument inner) later
          fun found => ∃ operator, found = .inr operator ∧ True := by
        refine Parses.whenAt rfl ((parses_qualifiedSymbol kind loose).bind ?_)
        rintro _ ⟨operator, rfl⟩
        exact Parses.pure ⟨operator, rfl, trivial⟩
      refine ⟨later, fun pending => ∃ operator, pending = some operator, ⟨?_, ?_⟩,
        Nat.le_refl _, ?_⟩
      · refine (parses_repeat_last asked last).mono ?_
        rintro _ ⟨operator, rfl, -⟩
        exact ⟨rfl, operator, rfl⟩
      · rw [List.length_append]
        exact Nat.le_add_left _ _
      · rintro _ ⟨operator, rfl⟩
        exact Parses.pure ⟨operator, rfl⟩
  | quoted name =>
    obtain ⟨constructor, encloses⟩ := derives
    obtain ⟨first, content, last, split, opens, closes, derives⟩ := encloses.split later
    have ahead : aheadOf (words ++ later) = .backtick := by rw [split]; exact opens
    refine stays (by rw [ahead]; rfl) ?_
    refine Parses.ahead ahead ?_
    rw [if_neg (by decide)]
    refine Parses.decided parses_symbolLeads ?_
    rw [symbolLeads_of_ahead (by rw [ahead]; decide), if_neg Bool.false_ne_true, if_pos rfl, split]
    exact (parses_quotedName closes constructor derives).bind fun found _ =>
      Parses.pure ⟨found, rfl⟩

/-! Chains. A pattern leans to the right and a chain to the left, so what is read of a pattern is told by
its first operand and by how the chain goes on behind that. -/

def PatternForm.leading : PatternForm → PatternOperand
  | .operand only => only
  | .binary left _ _ => left

theorem PatternForm.leading_isExpression {form : PatternForm}
    (read : form.IsExpression file source further) :
    form.leading.IsExpression file source further := by
  cases form with
  | operand only => exact read
  | binary left operator right => exact read.1

/-- Behind its first operand a pattern is read up to what follows it, whatever comes after that. -/
theorem PatternForm.continues (form : PatternForm) (read : form.IsExpression file source further)
    (inSection : Bool) (start : Span) {β : Type} (rest : Grammar.Operand → Parse β)
    {words : List Word} {holds : β → Prop} (derives : form.Derives words) (closes : isCloser (aheadOf later) = true)
    (goesOn : ∀ value, Parses file source further later (rest (value, none)) final holds) :
    ∃ front tail after pending, words = front ++ tail ∧ form.leading.Derives front ∧
      Follows (tail ++ later) ∧
      Stops file source further (level further) (tail ++ later) after pending ∧
      ∀ value operator, pending operator → Parses file source further after
        (chainFrom (level further) inSection start value operator >>= rest) final holds := by
  cases form with
  | operand only =>
    refine ⟨words, [], later, (· = none), (List.append_nil _).symm, derives,
      follows_of_closer closes, stops_of_ahead (closer_apart closes).1, ?_⟩
    rintro value _ rfl
    exact Parses.decided (parses_closed closes) (goesOn value)
  | binary left operator right =>
    obtain ⟨front, _, rfl, derives, between, back, rfl, operates, derivesRight⟩ := derives
    have loose : Loose (back ++ later) := (follows_of_form derivesRight).loose
    have opens : aheadOf (back ++ later) ≠ .closeParen :=
      right.ahead_ne derivesRight rfl (by decide)
    obtain ⟨own, tail, behind, met, rfl, leads, followed, stops, goes⟩ :=
      right.continues read.2 inSection start rest derivesRight closes goesOn
    obtain ⟨after, pending, here, fewer, names⟩ :=
      @PatternOperator.stops file source further between (own ++ tail ++ later) (level further)
        operator operates loose
    refine ⟨front, between ++ (own ++ tail), after, pending, rfl, derives, ?_, ?_, ?_⟩
    · exact List.append_assoc between _ later ▸ (endsOperand_of_operator operates).follows
    · rwa [List.append_assoc between]
    · intro value found taken
      have operand := PatternOperand.parses (right.leading_isExpression read.2) leads followed stops
      rw [← List.append_assoc] at operand
      have named : Parses file source further after (pendingOperator found) (own ++ tail ++ later)
          fun name => ∃ known, name = some known ∧ True :=
        (names found taken).mono fun name held => held.imp fun known same => ⟨same, trivial⟩
      refine parses_chainFrom_step named opens operand ?_ ?_
      · obtain ⟨word, more, rfl, -⟩ := right.leading.head leads
        have shorter := stops.within
        simp only [List.cons_append, List.length_cons, List.length_append] at shorter fewer ⊢
        omega
      · intro name result span _ done
        exact goes _ _ done

theorem PatternForm.parses_chain {form : PatternForm}
    (read : form.IsExpression file source further) (derives : form.Derives words)
    (closes : isCloser (aheadOf later) = true) :
    Parses file source further (words ++ later) (Grammar.chain (level further)) later
      fun _ => True := by
  refine Parses.start fun start => ?_
  have ended : ∀ value : Expr, Parses file source further later (pure value : Parse Expr) later
      fun _ => True := fun value => Parses.pure trivial
  obtain ⟨front, tail, after, pending, rfl, leads, follows, stops, goes⟩ :=
    form.continues read false start (fun found => pure found.1) derives closes ended
  rw [List.append_assoc]
  refine (PatternOperand.parses (form.leading_isExpression read) leads follows stops).bind ?_
  rintro ⟨value, operator⟩ taken
  exact goes value operator taken

theorem PatternForm.parses_expression {form : PatternForm}
    (read : form.IsExpression file source further) (derives : form.Derives words)
    (closes : isCloser (aheadOf later) = true) :
    Parses file source (further + 1) (words ++ later) (level (further + 1)).expression later
      fun _ => True := by
  refine parses_nested (Parses.start fun start => ?_)
  refine (form.parses_chain read derives closes).bind fun value _ => ?_
  exact (parses_annotated closes).mono fun _ _ => trivial

/-- By induction on the patterns: each is read behind its comma. -/
theorem parses_laterExpressions {forms : List PatternForm}
    (reads : ∀ form ∈ forms, form.IsExpression file source further)
    (derive : PatternForm.LaterDerive forms words) (closes : isCloser (aheadOf later) = true)
    (other : aheadOf later ≠ .comma) :
    isCloser (aheadOf (words ++ later)) = true ∧
      Parses file source (further + 1) (words ++ later)
        (many (accept .comma) (level (further + 1)).expression) later fun _ => True := by
  induction forms generalizing words with
  | nil =>
    obtain rfl : words = [] := derive
    exact ⟨closes, (parses_many_stop (parses_accept_other (by decide) other)).mono fun _ _ => trivial⟩
  | cons form others induction =>
    rw [List.forall_mem_cons] at reads
    obtain ⟨_, rest, rfl, ⟨comma, own, rfl, kind, derives⟩, derive⟩ := derive
    obtain ⟨next, parses⟩ := induction reads.2 derive
    rw [List.cons_append, List.cons_append, List.append_assoc]
    refine ⟨by rw [aheadOf, kind]; rfl, ?_⟩
    have read : Parses file source (further + 1) (own ++ (rest ++ later))
        (level (further + 1)).expression (rest ++ later) fun _ => True :=
      form.parses_expression reads.1 derives next
    refine (parses_many_step (parses_accept (by decide) kind) read ?_ parses).mono
      fun _ _ => trivial
    simp only [List.length_cons, List.length_append]
    omega

/-! Brackets. -/

theorem PatternOperand.negates {operand : PatternOperand} {sign : Word}
    (derives : operand.Derives (sign :: words)) (minus : sign.token = .minus) :
    ∃ number, words = [number] ∧ number.token ≠ .closeParen := by
  cases operand with
  | negative token text =>
    obtain ⟨kind, first, own, split, -, -, gap, rfl⟩ := derives
    obtain ⟨rfl, rfl⟩ := List.cons.inj split
    refine ⟨_, rfl, ?_⟩
    rintro rfl
    rcases kind with same | same <;> cases same
  | applied function arguments =>
    obtain ⟨-, front, back, split, derives, -⟩ := derives
    obtain ⟨word, rest, rfl, starts⟩ := function.head derives
    obtain ⟨rfl, -⟩ := List.cons.inj split
    rw [minus] at starts
    cases starts

theorem PatternForm.negates {form : PatternForm} {sign : Word}
    (derives : form.Derives (sign :: words)) (minus : sign.token = .minus) :
    ∃ number rest, words = number :: rest ∧ number.token ≠ .closeParen := by
  cases form with
  | operand only =>
    obtain ⟨number, rfl, other⟩ := only.negates derives minus
    exact ⟨number, [], rfl, other⟩
  | binary left operator right =>
    obtain ⟨front, back, split, derives, -⟩ := derives
    obtain ⟨word, rest, rfl, -⟩ := left.head derives
    obtain ⟨rfl, rfl⟩ := List.cons.inj split
    obtain ⟨number, rfl, other⟩ := left.negates derives minus
    exact ⟨number, back, rfl, other⟩

/-- No operator leads a pattern in parentheses. A sign stands before a number. -/
theorem PatternForm.parses_operatorLeads {form : PatternForm} (derives : form.Derives words) :
    Parses file source further (words ++ later) operatorLeads (words ++ later) (· = false) := by
  obtain ⟨word, rest, rfl, starts⟩ := form.head derives
  have ahead : aheadOf (word :: rest ++ later) = word.token := rfl
  rcases starts with atom | minus
  · refine Parses.ahead ahead ?_
    generalize word.token = token at atom
    cases token <;> first | exact Parses.pure rfl | cases atom
  · obtain ⟨number, behind, rfl, other⟩ := form.negates derives minus
    exact (parses_operatorLeads_sign minus).mono fun _ same => same.trans (decide_eq_false other)

def elementsEnd (inner : Level) (start : Span) (element : Expr) : Parse Expr := do
  if ← isAt .comma then
    let later ← many (accept .comma) inner.expression
    let _ ← expectOrSkipTo .closeParen
    return .tuple (element :: later) (← spanFrom start)
  else
    let _ ← expectOrSkipTo .closeParen
    return .parenthesized element (← spanFrom start)

/-- A chain in parentheses that ends without an operator is an element. -/
theorem afterFirstOperand_eq (inner : Level) (start firstStart : Span) :
    ∃ rest : Grammar.Operand → Parse Expr,
      (∀ first, afterFirstOperand inner start firstStart first =
        (chainFrom inner true firstStart first.1 first.2 >>= rest)) ∧
      ∀ value, rest (value, none) =
        (annotated inner firstStart value >>= elementsEnd inner start) :=
  ⟨_, fun _ => rfl, fun _ => rfl⟩

theorem PatternForm.parses_parentheses {form : PatternForm} {opening : Word} {holds : Expr → Prop}
    (read : form.IsExpression file source further) (derives : form.Derives words)
    (closes : isCloser (aheadOf later) = true)
    (goesOn : ∀ start value, Parses file source further later
      (elementsEnd (level further) start value) final holds) :
    Parses file source further (opening :: (words ++ later)) (parentheses (level further)) final
      holds := by
  refine Parses.start fun start => Parses.consume ?_
  refine Parses.unlessAccepted (by decide) (form.ahead_ne derives rfl (by decide)) ?_
  refine Parses.unlessAt (form.ahead_ne derives rfl (by decide)) ?_
  refine Parses.decided (form.parses_operatorLeads derives) ?_
  refine Parses.start fun firstStart => ?_
  obtain ⟨rest, applied, ended⟩ := afterFirstOperand_eq (level further) start firstStart
  have annotation : ∀ value, Parses file source further later (rest (value, none)) final holds := by
    intro value
    rw [ended]
    exact Parses.decided (parses_annotated closes) (goesOn start value)
  obtain ⟨front, tail, after, pending, rfl, leads, follows, stops, goes⟩ :=
    form.continues read true firstStart rest derives closes annotation
  have first := form.leading_isExpression read
  generalize form.leading = operand at first leads
  rw [List.append_assoc]
  by_cases proper : aheadOf (front ++ (tail ++ later)) = .properIdentifier
  · refine Parses.whenAt proper ?_
    cases operand with
    | negative token text =>
      obtain ⟨-, sign, own, rfl, minus, -⟩ := leads
      cases minus.symm.trans proper
    | applied function atoms =>
      obtain ⟨-, own, others, rfl, derives, derive⟩ := leads
      obtain ⟨word, more, split, -⟩ := function.head derives
      obtain ⟨name, rfl⟩ := function.exists_constructor derives (by rw [split] at proper ⊢; exact proper)
      obtain ⟨followed, -⟩ := parses_argumentsLoop first.2.1 first.2.2 derive follows stops
      rw [List.append_assoc]
      refine (name.parses_term derives.1 derives.2 followed.loose).bind ?_
      rintro _ ⟨found, rfl⟩
      refine (parses_operandArguments first.2.1 first.2.2 derive follows stops firstStart).bind ?_
      intro found taken
      rw [applied]
      exact goes found.1 found.2 taken
  · refine Parses.unlessAt proper ?_
    refine (PatternOperand.parses first leads follows stops).bind ?_
    intro found taken
    rw [applied]
    exact goes found.1 found.2 taken

theorem isExpression_parenthesized {inner : PatternForm}
    (read : inner.IsExpression file source further) :
    (PatternAtom.parenthesized inner).IsExpression file source (further + 1) := by
  intro words later derives follows
  obtain ⟨first, content, last, split, opens, closes, inside⟩ := derives.split later
  rw [split]
  refine parses_inParens opens (inner.parses_parentheses read inside (by rw [aheadOf, closes]; rfl) ?_)
  intro start value
  refine Parses.unlessAt (by simp [aheadOf, closes]) ?_
  refine Parses.decided (parses_expectOrSkipTo (by decide) closes) ?_
  exact Parses.spanFrom fun span => Parses.pure trivial

theorem isExpression_tuple {first second : PatternForm} {forms : List PatternForm}
    (read : first.IsExpression file source (further + 1))
    (reads : ∀ form ∈ second :: forms, form.IsExpression file source further) :
    (PatternAtom.tuple first second forms).IsExpression file source (further + 2) := by
  intro words later derives follows
  obtain ⟨opening, content, last, split, opens, closes, front, back, rfl, derives, rest⟩ :=
    derives.split later
  have elements : PatternForm.LaterDerive (second :: forms) back := rest
  obtain ⟨closer, parses⟩ := parses_laterExpressions reads elements
    (show isCloser (aheadOf (last :: later)) = true by rw [aheadOf, closes]; rfl)
    (by simp [aheadOf, closes])
  have comma : aheadOf (back ++ last :: later) = .comma := by
    obtain ⟨_, _, rfl, ⟨comma, own, rfl, kind, -⟩, -⟩ := rest
    exact kind
  rw [split, List.append_assoc]
  refine parses_inParens opens (first.parses_parentheses read derives closer ?_)
  intro start value
  refine Parses.whenAt comma (parses.bind fun others _ => ?_)
  exact Parses.decided (parses_expectOrSkipTo (by decide) closes)
    (Parses.spanFrom fun span => Parses.pure trivial)

theorem isExpression_emptyList :
    PatternAtom.emptyList.IsExpression file source (further + 1) := by
  intro words later derives follows
  obtain ⟨first, content, last, split, opens, closes, rfl⟩ := derives.split later
  rw [split]
  refine Parses.ahead opens (parses_nested (Parses.start fun start => Parses.consume ?_))
  exact Parses.whenAccepted (by decide) closes
    (Parses.spanFrom fun span => Parses.pure trivial)

theorem isExpression_list {first : PatternForm} {forms : List PatternForm}
    (read : first.IsExpression file source further)
    (reads : ∀ form ∈ forms, form.IsExpression file source further) :
    (PatternAtom.list first forms).IsExpression file source (further + 2) := by
  intro words later derives follows
  obtain ⟨opening, content, last, split, opens, closes, front, back, rfl, derives, rest⟩ :=
    derives.split later
  have closing : isCloser (aheadOf (last :: later)) = true := by rw [aheadOf, closes]; rfl
  have other : aheadOf (last :: later) ≠ .comma := by simp [aheadOf, closes]
  have ended : ∀ start elements, Parses file source (further + 1) (last :: later)
      (listEnd start elements) later fun _ => True := fun start elements =>
    Parses.decided (parses_expectOrSkipTo (by decide) closes)
      (Parses.spanFrom fun span => Parses.pure trivial)
  have next := (parses_laterExpressions reads rest closing other).1
  have facts := closer_apart next
  rw [split, List.append_assoc]
  refine Parses.ahead opens (parses_nested (Parses.start fun start => Parses.consume ?_))
  refine Parses.unlessAccepted (by decide) (first.ahead_ne derives rfl (by decide)) ?_
  refine (first.parses_expression read derives next).bind fun one _ => ?_
  refine Parses.unlessAccepted (by decide) facts.2.2.2.2.2.1 ?_
  refine Parses.unlessAccepted (by decide) facts.2.2.2.2.2.2 ?_
  cases forms with
  | nil =>
    obtain rfl : back = [] := rest
    exact Parses.unlessAccepted (by decide) other (ended start [one])
  | cons second forms =>
    rw [List.forall_mem_cons] at reads
    obtain ⟨_, more, rfl, ⟨comma, own, rfl, kind, derivesSecond⟩, rest⟩ := rest
    obtain ⟨behind, parses⟩ := parses_laterExpressions reads.2 rest closing other
    rw [List.cons_append, List.cons_append, List.append_assoc]
    refine Parses.whenAccepted (by decide) kind ?_
    refine (second.parses_expression reads.1 derivesSecond behind).bind fun _ _ => ?_
    refine Parses.unlessAccepted (by decide) (closer_apart behind).2.2.2.2.2.1 ?_
    exact parses.bind fun others _ => ended start _

/-! Every plain tree is read if there are as many further levels as it takes. -/

section Trees

variable (file source)

mutual

theorem PatternAtom.isExpression (atom : PatternAtom) (plain : atom.IsPlain) {further : Nat}
    (room : atom.levels ≤ further) : atom.IsExpression file source further := by
  cases atom with
  | named text => exact isExpression_named text
  | aliased text atom =>
    rw [PatternAtom.levels] at room
    obtain ⟨further, rfl⟩ := Nat.exists_eq_add_of_le' (show 1 ≤ further by omega)
    exact isExpression_aliased text (atom.isExpression plain (by omega))
  | constructor name => exact isExpression_constructor name
  | literal token text => exact isExpression_literal text
  | wildcard => exact isExpression_wildcard
  | irrefutable atom =>
    rw [PatternAtom.levels] at room
    obtain ⟨further, rfl⟩ := Nat.exists_eq_add_of_le' (show 1 ≤ further by omega)
    exact isExpression_irrefutable (atom.isExpression plain (by omega))
  | unit =>
    obtain ⟨further, rfl⟩ := Nat.exists_eq_add_of_le' (show 1 ≤ further from room)
    exact isExpression_unit
  | tupleConstructor count =>
    obtain ⟨further, rfl⟩ := Nat.exists_eq_add_of_le' (show 1 ≤ further from room)
    exact isExpression_tupleConstructor count
  | symbol token text =>
    obtain ⟨further, rfl⟩ := Nat.exists_eq_add_of_le' (show 1 ≤ further from room)
    exact isExpression_symbol text
  | parenthesized inner =>
    rw [PatternAtom.levels] at room
    obtain ⟨further, rfl⟩ := Nat.exists_eq_add_of_le' (show 1 ≤ further by omega)
    exact isExpression_parenthesized (inner.isExpression plain (by omega))
  | tuple first second later =>
    rw [PatternAtom.levels] at room
    obtain ⟨plain, following, others⟩ := plain
    obtain ⟨further, rfl⟩ := Nat.exists_eq_add_of_le' (show 2 ≤ further by omega)
    exact isExpression_tuple (first.isExpression plain (by omega))
      (List.forall_mem_cons.2 ⟨second.isExpression following (by omega),
        PatternForm.areExpressions later others (by omega)⟩)
  | emptyList =>
    obtain ⟨further, rfl⟩ := Nat.exists_eq_add_of_le' (show 1 ≤ further from room)
    exact isExpression_emptyList
  | list first later =>
    rw [PatternAtom.levels] at room
    obtain ⟨further, rfl⟩ := Nat.exists_eq_add_of_le' (show 2 ≤ further by omega)
    exact isExpression_list (first.isExpression plain.1 (by omega))
      (PatternForm.areExpressions later plain.2 (by omega))

theorem PatternAtom.areExpressions (atoms : List PatternAtom)
    (plain : PatternAtom.ArePlainArguments atoms) {further : Nat}
    (room : PatternAtom.listLevels atoms ≤ further) :
    ∀ atom ∈ atoms, atom.IsExpression file source further := by
  cases atoms with
  | nil => simp
  | cons atom later =>
    rw [PatternAtom.listLevels] at room
    exact List.forall_mem_cons.2 ⟨atom.isExpression plain.2.1 (by omega),
      PatternAtom.areExpressions later plain.2.2 (by omega)⟩

theorem PatternOperand.isExpression (operand : PatternOperand) (plain : operand.IsPlain)
    {further : Nat} (room : operand.levels ≤ further) :
    operand.IsExpression file source further := by
  cases operand with
  | negative token text => trivial
  | applied function atoms =>
    rw [PatternOperand.levels] at room
    exact ⟨function.isExpression plain.1 (by omega),
      PatternAtom.areExpressions atoms plain.2 (by omega), plain.2⟩

theorem PatternForm.isExpression (form : PatternForm) (plain : form.IsPlain) {further : Nat}
    (room : form.levels ≤ further) : form.IsExpression file source further := by
  cases form with
  | operand only => exact only.isExpression plain room
  | binary left operator right =>
    rw [PatternForm.levels] at room
    exact ⟨left.isExpression plain.1 (by omega), right.isExpression plain.2 (by omega)⟩

theorem PatternForm.areExpressions (forms : List PatternForm) (plain : PatternForm.ArePlain forms)
    {further : Nat} (room : PatternForm.listLevels forms ≤ further) :
    ∀ form ∈ forms, form.IsExpression file source further := by
  cases forms with
  | nil => simp
  | cons form later =>
    rw [PatternForm.listLevels] at room
    exact List.forall_mem_cons.2 ⟨form.isExpression plain.1 (by omega),
      PatternForm.areExpressions later plain.2 (by omega)⟩

end

end Trees

end Productions

end Offside.Haskell.Core
