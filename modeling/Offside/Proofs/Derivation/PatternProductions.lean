import Offside.Proofs.Derivation.Patterns
import Offside.Proofs.Derivation.TypeProductions

/-!
Derived patterns as they are read. Every bracket around a pattern, every at sign and tilde, and every
operator takes one nesting level. A qualified constructor operator starts like an argument, so the
arguments of a constructor end where the tokens further on tell one.
-/

namespace Offside.Haskell.Core

set_option autoImplicit false

open Offside.Lexical Offside.Parse Offside.Haskell.Grammar

def symbolLeads (isKind : Token → Bool) (words : List Word) : Bool :=
  qualifierLeads words &&
    match words with
    | _ :: _ :: last :: _ => isKind last.token
    | _ => false

def argumentLeads (words : List Word) : Bool :=
  startsPatternAtom (aheadOf words) && !symbolLeads Token.isConstructorOperator words

structure EndsOperand (words : List Word) : Prop where
  follows : Follows words
  last : argumentLeads words = false

def endsPattern (token : Token) : Bool :=
  !startsPatternAtom token && !token.isConstructorOperator && token != .backtick && token != .dot &&
    token != .atSign

def argumentFollows : Parse Bool := do
  if startsPatternAtom (← ahead) then
    return !(← qualifiedSymbolFollows Token.isConstructorOperator)
  else return false

section Reading

variable (file : FileId) (source : List Char) (further : Nat)

def PatternAtom.IsRead (atom : PatternAtom) : Prop :=
  ∀ words later, atom.Derives words → Follows later →
    Parses file source further (words ++ later) (patternAtom (level further)) later
      (atom.Matches file source)

def PatternOperand.IsRead (operand : PatternOperand) : Prop :=
  ∀ words later, operand.Derives words → EndsOperand later →
    Parses file source further (words ++ later) (operandPattern (level further)) later
      (operand.Matches file source)

def PatternForm.IsRead (form : PatternForm) : Prop :=
  ∀ words later, form.Derives words → endsPattern (aheadOf later) = true →
    Parses file source further (words ++ later) (level further).pattern later
      (form.Matches file source)

end Reading

section Productions

variable {file : FileId} {source : List Char} {further room : Nat} {words later : List Word}
  {token : Token}

/-! What words start with. -/

theorem Dotted.head {name : Dotted} (constructor : name.isConstructor = true)
    (derives : name.Derives words) : ∃ word rest, words = word :: rest ∧
      word.token = .properIdentifier := by
  obtain ⟨gap, dotted⟩ := derives
  obtain ⟨qualifiers, token, text⟩ := name
  cases dotted with
  | last =>
    refine ⟨_, _, rfl, ?_⟩
    simpa [isConstructor] using constructor
  | qualified => exact ⟨_, _, rfl, rfl⟩

theorem PatternAtom.head {atom : PatternAtom} (derives : atom.Derives words) :
    ∃ word rest, words = word :: rest ∧ startsPatternAtom word.token = true := by
  have headed : ∀ {first behind}, startsPatternAtom first = true → Heads first behind words →
      ∃ word rest, words = word :: rest ∧ startsPatternAtom word.token = true := by
    rintro first behind starts ⟨word, rest, split, kind, -⟩
    exact ⟨word, rest, split, by rw [kind, starts]⟩
  cases atom with
  | named text =>
    obtain ⟨gap, rfl⟩ := derives
    exact ⟨_, _, rfl, rfl⟩
  | aliased text atom =>
    obtain ⟨gap, rest, rfl, -⟩ := derives
    exact ⟨_, _, rfl, rfl⟩
  | constructor name =>
    obtain ⟨word, rest, split, kind⟩ := name.head derives.1 derives.2
    exact ⟨word, rest, split, by rw [kind]; rfl⟩
  | literal token text =>
    obtain ⟨kind, gap, rfl⟩ := derives
    refine ⟨_, _, rfl, ?_⟩
    generalize token = token at kind ⊢
    cases token <;> first | rfl | cases kind
  | symbol token text => exact headed rfl derives.2
  | _ => exact headed rfl derives

theorem PatternOperand.head {operand : PatternOperand} (derives : operand.Derives words) :
    ∃ word rest, words = word :: rest ∧
      (startsPatternAtom word.token = true ∨ word.token = .minus) := by
  cases operand with
  | negative token text =>
    obtain ⟨-, word, rest, split, kind, -⟩ := derives
    exact ⟨word, rest, split, .inr kind⟩
  | applied function arguments =>
    obtain ⟨-, front, back, rfl, derives, -⟩ := derives
    obtain ⟨word, rest, rfl, starts⟩ := function.head derives
    exact ⟨word, rest ++ back, rfl, .inl starts⟩

theorem PatternForm.head {form : PatternForm} (derives : form.Derives words) :
    ∃ word rest, words = word :: rest ∧
      (startsPatternAtom word.token = true ∨ word.token = .minus) := by
  cases form with
  | operand operand => exact operand.head derives
  | binary left operator right =>
    obtain ⟨front, back, rfl, derives, -⟩ := derives
    obtain ⟨word, rest, rfl, starts⟩ := left.head derives
    exact ⟨word, rest ++ back, rfl, starts⟩

theorem PatternForm.ahead_ne {form : PatternForm} (derives : form.Derives words)
    (other : startsPatternAtom token = false) (unsigned : token ≠ .minus) :
    aheadOf (words ++ later) ≠ token := by
  obtain ⟨word, rest, rfl, starts⟩ := form.head derives
  rintro rfl
  rcases starts with atom | minus
  · cases other.symm.trans atom
  · exact unsigned minus

theorem follows_of_starts (starts : startsPatternAtom (aheadOf words) = true) : Follows words := by
  apply follows_of_ahead <;> (intro same; rw [same] at starts; cases starts)

theorem follows_of_form {form : PatternForm} (derives : form.Derives words) :
    Follows (words ++ later) :=
  follows_of_ahead (form.ahead_ne derives rfl (by decide)) (form.ahead_ne derives rfl (by decide))

/-! Names and operators. -/

theorem Dotted.kind {name : Dotted} (constructor : name.isConstructor = true) :
    name.token = .properIdentifier ∨ name.token = .identifier := by
  simp only [isConstructor, Bool.or_eq_true, Bool.and_eq_true, beq_iff_eq] at constructor
  exact constructor.imp_right And.left

theorem Dotted.parses_last {name : Dotted} (constructor : name.isConstructor = true) (gap : Bool) :
    Parses file source room (⟨name.token, name.text, gap⟩ :: later) eitherIdentifier later
      (IsPart file source name.text) := by
  rcases name.kind constructor with same | same <;> rw [same]
  · exact Parses.unlessAt (by simp [aheadOf]) (parses_nameAt (by decide) name.text gap)
  · exact Parses.whenAt rfl (parses_nameAt (by decide) name.text gap)

theorem Dotted.parses {name : Dotted} (constructor : name.isConstructor = true)
    (derives : name.Derives words) (loose : Loose later) :
    Parses file source room (words ++ later) qualifiedIdentifier later
      (name.Matches file source) := by
  obtain ⟨gap, dotted⟩ := derives
  have qualifiable : isQualifiable name.token = true := by
    rcases name.kind constructor with same | same <;> (rw [same]; rfl)
  exact dotted.parses_qualifiedBy qualifiable loose (name.parses_last constructor)
    fun _ => IsPart.inFile

theorem parses_constructorSymbol {text : List Char} (symbol : token.isConstructorOperator = true)
    (gap : Bool) :
    Parses file source room (⟨token, text, gap⟩ :: later) constructorSymbol later
      (IsConstructorSymbol file source text) := by
  have ahead : aheadOf (⟨token, text, gap⟩ :: later) = token := rfl
  refine Parses.aheadSpan fun span shows => Parses.ahead ahead ?_
  rw [if_pos symbol]
  exact Parses.consume (Parses.pure ⟨span, rfl, shows⟩)

theorem constructorOperator_facts (symbol : token.isConstructorOperator = true) :
    isQualifiable token = true ∧ startsPatternAtom token = false ∧ token ≠ .properIdentifier ∧
      token ≠ .dot ∧ token ≠ .atSign ∧ token ≠ .closeParen ∧ token ≠ .comma := by
  cases token <;> first | decide | cases symbol

theorem symbolLeads_of_ahead {isKind : Token → Bool} (other : aheadOf words ≠ .properIdentifier) :
    symbolLeads isKind words = false := by
  have none : qualifierLeads words = false := by
    unfold qualifierLeads
    split
    · rename_i first dot last later
      have different : first.token ≠ .properIdentifier := other
      simp [different]
    · rfl
  simp [symbolLeads, none]

theorem parses_symbolLeads {isKind : Token → Bool} :
    Parses file source room words (qualifiedSymbolFollows isKind) words
      (· = symbolLeads isKind words) := by
  have asked := @parses_qualifierFollows file source room words
  refine Parses.decided asked ?_
  cases leads : qualifierLeads words with
  | false =>
    rw [if_neg Bool.false_ne_true]
    exact Parses.pure (by simp [symbolLeads, leads])
  | true =>
    rw [if_pos rfl]
    rcases words with - | ⟨first, - | ⟨dot, - | ⟨last, behind⟩⟩⟩
    · cases leads
    · cases leads
    · cases leads
    · have sees : Parses file source room (first :: dot :: last :: behind)
          (do return isKind (← peek 2)) (first :: dot :: last :: behind)
          (· = isKind last.token) := by
        refine Sees.parses fun place tokens marks _ => ?_
        cases marks with
        | @cons _ _ one _ _ _ _ marks =>
        cases marks with
        | @cons _ _ two _ _ _ _ marks =>
        cases marks with
        | @cons _ _ three _ tokens _ _ marks =>
        exact (sees_peek (by decide) (by decide) rfl).bind (Sees.pure _)
      exact sees.mono fun _ same => by rw [same, symbolLeads, leads, Bool.true_and]

theorem Dotted.symbol_cases {name : Dotted} (symbol : name.isConstructorSymbol = true)
    (derives : name.Derives words) :
    (name.qualifiers = [] ∧ ∃ gap, words = [⟨name.token, name.text, gap⟩]) ∨
      ∃ qualifier dot gap, name.qualifiers = [qualifier] ∧
        words = [⟨.properIdentifier, qualifier, gap⟩, ⟨.dot, dot, false⟩,
          ⟨name.token, name.text, false⟩] := by
  obtain ⟨qualifiers, token, text⟩ := name
  obtain ⟨gap, dotted⟩ := derives
  cases dotted with
  | last => exact .inl ⟨rfl, gap, rfl⟩
  | qualified gap qualifier dot behind =>
    cases behind with
    | last => exact .inr ⟨qualifier, dot, gap, rfl, rfl⟩
    | qualified => simp [isConstructorSymbol] at symbol

/-- A constructor symbol behind a qualifier is seen three tokens ahead. -/
theorem parses_qualifiedOperator {qualifier dot text : List Char} {gap : Bool} {holds : Name → Prop}
    (symbol : token.isConstructorOperator = true)
    (parses : Parses file source room
      (⟨.properIdentifier, qualifier, gap⟩ :: ⟨.dot, dot, false⟩ :: ⟨token, text, false⟩ :: later)
      (qualifiedBy constructorSymbol) later holds) :
    Parses file source room
      (⟨.properIdentifier, qualifier, gap⟩ :: ⟨.dot, dot, false⟩ :: ⟨token, text, false⟩ :: later)
      constructorOperator? later fun found => ∃ name, found = some name ∧ holds name := by
  have leads : symbolLeads Token.isConstructorOperator (⟨.properIdentifier, qualifier, gap⟩ ::
      ⟨.dot, dot, false⟩ :: ⟨token, text, false⟩ :: later) = true := by
    simp [symbolLeads, qualifierLeads, (constructorOperator_facts symbol).1, symbol]
  have ahead : aheadOf (⟨.properIdentifier, qualifier, gap⟩ :: ⟨.dot, dot, false⟩ ::
      ⟨token, text, false⟩ :: later) = .properIdentifier := rfl
  refine Parses.ahead ahead ?_
  rw [if_neg (by decide)]
  refine Parses.decided parses_symbolLeads ?_
  rw [if_pos leads]
  exact parses.bind fun name found => Parses.pure ⟨name, rfl, found⟩

theorem parses_secondIs {first second : Word} (next : token = second.token) :
    Parses file source room (first :: second :: later) (do return decide ((← peek 1) = token))
      (first :: second :: later) (· = true) := by
  refine Sees.parses fun place tokens marks _ => ?_
  cases marks with
  | @cons _ _ one _ _ _ _ marks =>
  cases marks with
  | @cons _ _ two _ tokens _ _ marks =>
  refine (sees_peek (by decide) (by decide) rfl).bind ?_
  rw [decide_eq_true next.symm]
  exact Sees.pure true

theorem parses_quotedName {name : Dotted} {first last : Word} {content : List Word}
    (closes : last.token = .backtick) (constructor : name.isConstructor = true) (derives : name.Derives content) :
    Parses file source room (first :: (content ++ last :: later)) quotedOperator later
      (name.Matches file source) := by
  have loose : Loose (last :: later) := loose_of_ahead (by simp [aheadOf, closes])
  have read : Parses file source room (content ++ last :: later) qualifiedIdentifier
      (last :: later) (name.Matches file source) := name.parses constructor derives loose
  refine Parses.consume (read.bind fun found matched => ?_)
  exact Parses.decided (parses_expectOrSkipTo (by decide) closes) (Parses.pure matched)

theorem parses_quotedConstructor {name : Dotted} {first last : Word} {content : List Word}
    (opens : first.token = .backtick) (closes : last.token = .backtick)
    (constructor : name.isConstructor = true) (derives : name.Derives content) :
    Parses file source room (first :: (content ++ last :: later)) constructorOperator? later
      fun found => ∃ found', found = some found' ∧ name.Matches file source found' := by
  have quoted : Parses file source room (first :: (content ++ last :: later)) quotedOperator later
      (name.Matches file source) := parses_quotedName closes constructor derives
  obtain ⟨word, rest, rfl, kind⟩ := name.head constructor derives
  have ahead : aheadOf (first :: (word :: rest ++ last :: later)) = .backtick := opens
  refine Parses.ahead ahead ?_
  rw [if_neg (by decide)]
  refine Parses.decided parses_symbolLeads ?_
  rw [symbolLeads_of_ahead (by rw [ahead]; decide), if_neg Bool.false_ne_true]
  have follows : Parses file source room (first :: (word :: rest ++ last :: later))
      (quotedFollows .properIdentifier) (first :: (word :: rest ++ last :: later)) (· = true) :=
    Parses.whenAt ahead (parses_secondIs kind.symm)
  refine Parses.decided follows ?_
  rw [if_pos rfl]
  exact quoted.bind fun found matched => Parses.pure ⟨found, rfl, matched⟩

theorem PatternOperator.parses {operator : PatternOperator} (derives : operator.Derives words)
    (loose : Loose later) :
    Parses file source room (words ++ later) constructorOperator? later fun found =>
      ∃ name, found = some name ∧ operator.Matches file source name := by
  cases operator with
  | symbol name =>
    obtain ⟨symbol, derives⟩ := derives
    have kind : name.token.isConstructorOperator = true := by
      simp only [Dotted.isConstructorSymbol, Bool.and_eq_true] at symbol
      exact symbol.1
    have last : ∀ gap, Parses file source room (⟨name.token, name.text, gap⟩ :: later)
        constructorSymbol later (IsConstructorSymbol file source name.text) :=
      parses_constructorSymbol kind
    have inFile : ∀ found, IsConstructorSymbol file source name.text found →
        found.span.file = file := by
      rintro _ ⟨span, rfl, shows⟩
      exact shows.file
    rcases name.symbol_cases symbol derives with ⟨none, gap, rfl⟩ | ⟨qualifier, dot, gap, one, rfl⟩
    · have ahead : aheadOf ([⟨name.token, name.text, gap⟩] ++ later) = name.token := rfl
      refine Parses.ahead ahead ?_
      rw [if_pos kind]
      refine (last gap).bind fun found matched => Parses.pure ⟨found, rfl, ?_⟩
      simpa only [PatternOperator.Matches, none, IsNamed] using matched
    · have dotted := IsDotted.qualified gap qualifier dot (@IsDotted.last name.token name.text false)
      have named := dotted.parses_qualifiedBy (constructorOperator_facts kind).1 loose last inFile
      refine (parses_qualifiedOperator kind named).mono ?_
      rintro _ ⟨found, rfl, matched⟩
      exact ⟨found, rfl, by simpa only [PatternOperator.Matches, one] using matched⟩
  | quoted name =>
    obtain ⟨constructor, encloses⟩ := derives
    obtain ⟨first, content, last, split, opens, closes, derives⟩ := encloses.split later
    rw [split]
    exact parses_quotedConstructor opens closes constructor derives

theorem parses_no_constructorOperator (ends : endsPattern (aheadOf words) = true) :
    Parses file source room words constructorOperator? words (· = none) := by
  simp only [endsPattern, Bool.and_eq_true, Bool.not_eq_true', bne_iff_ne] at ends
  obtain ⟨⟨⟨⟨starts, symbol⟩, backtick⟩, -⟩, -⟩ := ends
  have proper : aheadOf words ≠ .properIdentifier := by
    intro same
    rw [same] at starts
    cases starts
  refine Parses.ahead rfl ?_
  rw [if_neg (by simp [symbol])]
  refine Parses.decided parses_symbolLeads ?_
  rw [symbolLeads_of_ahead proper, if_neg Bool.false_ne_true]
  refine Parses.decided (parses_quotedFollows backtick) ?_
  rw [if_neg Bool.false_ne_true]
  exact Parses.pure rfl

/-! What may stand behind an operand. -/

theorem endsOperand_of_closer (ends : endsPattern (aheadOf words) = true) : EndsOperand words := by
  simp only [endsPattern, Bool.and_eq_true, Bool.not_eq_true', bne_iff_ne] at ends
  obtain ⟨⟨⟨⟨starts, -⟩, -⟩, dot⟩, sign⟩ := ends
  exact ⟨follows_of_ahead dot sign, by rw [argumentLeads, starts, Bool.false_and]⟩

theorem endsOperand_of_operator {operator : PatternOperator} (derives : operator.Derives words) :
    EndsOperand (words ++ later) := by
  cases operator with
  | symbol name =>
    obtain ⟨symbol, derives⟩ := derives
    have kind : name.token.isConstructorOperator = true := by
      simp only [Dotted.isConstructorSymbol, Bool.and_eq_true] at symbol
      exact symbol.1
    obtain ⟨qualifiable, starts, -, dot, sign, -⟩ := constructorOperator_facts kind
    rcases name.symbol_cases symbol derives with ⟨-, gap, rfl⟩ | ⟨qualifier, text, gap, -, rfl⟩
    · exact ⟨follows_of_ahead dot sign, by simp [argumentLeads, aheadOf, starts]⟩
    · refine ⟨follows_of_ahead (by simp [aheadOf]) (by simp [aheadOf]), ?_⟩
      simp [argumentLeads, symbolLeads, qualifierLeads, qualifiable, kind]
  | quoted name =>
    obtain ⟨-, first, rest, rfl, opens, -⟩ := derives
    have ahead : aheadOf (first :: rest ++ later) = .backtick := opens
    exact ⟨follows_of_ahead (by rw [ahead]; decide) (by rw [ahead]; decide),
      by rw [argumentLeads, ahead]; rfl⟩

/-- Only a constructor starts with a proper identifier. -/
theorem PatternAtom.exists_constructor {atom : PatternAtom} (derives : atom.Derives words)
    (proper : aheadOf words = .properIdentifier) : ∃ name, atom = .constructor name := by
  have headed : ∀ {first behind}, first ≠ .properIdentifier → ¬Heads first behind words := by
    rintro first behind other ⟨word, rest, rfl, kind, -⟩
    exact other (kind.symm.trans proper)
  cases atom with
  | constructor name => exact ⟨name, rfl⟩
  | named text =>
    obtain ⟨gap, rfl⟩ := derives
    cases proper
  | aliased text atom =>
    obtain ⟨gap, rest, rfl, -⟩ := derives
    cases proper
  | literal token text =>
    obtain ⟨known, gap, rfl⟩ := derives
    have same : token = .properIdentifier := proper
    rw [same] at known
    cases known
  | symbol token text => exact absurd derives.2 (headed (by decide))
  | _ => exact absurd derives (headed (by decide))

/-- The name of a constructor or a variable is no qualified symbol. -/
theorem Dotted.symbolLeads {name : Dotted} (constructor : name.isConstructor = true)
    (derives : name.Derives words) (loose : Loose later) :
    symbolLeads Token.isConstructorOperator (words ++ later) = false := by
  obtain ⟨qualifiers, token, text⟩ := name
  obtain ⟨gap, dotted⟩ := derives
  have word : token.isConstructorOperator = false := by
    simp only [isConstructor, Bool.or_eq_true, Bool.and_eq_true, beq_iff_eq] at constructor
    rcases constructor with same | ⟨same, -⟩ <;> (rw [same]; rfl)
  cases dotted with
  | last =>
    simp [Core.symbolLeads, qualifierLeads_loose loose]
  | qualified gap qualifier dot behind =>
    obtain ⟨last, rest, rfl, -, kind⟩ := behind.head
    have other : last.token.isConstructorOperator = false := by
      rcases kind with same | same
      · rw [same, word]
      · rw [same]
        rfl
    simp [Core.symbolLeads, other]

/-- An atom behind a constructor is told from a qualified operator by its last part. -/
theorem argumentLeads_of_atom {atom : PatternAtom} (derives : atom.Derives words)
    (loose : Loose later) : argumentLeads (words ++ later) = true := by
  obtain ⟨word, rest, split, starts⟩ := atom.head derives
  have ahead : aheadOf (words ++ later) = word.token := by rw [split]; rfl
  rw [argumentLeads, ahead, starts, Bool.true_and, Bool.not_eq_true']
  by_cases proper : word.token = .properIdentifier
  · obtain ⟨name, rfl⟩ := atom.exists_constructor derives (by rw [split]; exact proper)
    exact name.symbolLeads derives.1 derives.2 loose
  · exact symbolLeads_of_ahead (by rwa [ahead])

/-! Atoms. -/

theorem parses_literalPattern {text : List Char} (literal : IsLiteral token text words) :
    Parses file source room (words ++ later) Grammar.literal later
      (MatchesLiteral file source token text) := by
  obtain ⟨known, gap, rfl⟩ := literal
  obtain ⟨kind, same⟩ := Option.isSome_iff_exists.1 known
  have ahead : aheadOf ([⟨token, text, gap⟩] ++ later) = token := rfl
  refine Parses.ahead ahead ?_
  rw [same]
  refine Parses.aheadSpan fun span shows => Parses.consume (Parses.pure ?_)
  exact ⟨kind, span, rfl, same, shows⟩

theorem isRead_named (text : List Char) : (PatternAtom.named text).IsRead file source further := by
  rintro words later ⟨gap, rfl⟩ follows
  refine Parses.ahead rfl (Parses.start fun start => ?_)
  refine (parses_nameAt (by decide) text gap).bind fun name part => ?_
  exact Parses.unlessAccepted (by decide) follows.unaliased (Parses.pure ⟨name, rfl, part⟩)

theorem isRead_aliased {atom : PatternAtom} (text : List Char)
    (read : atom.IsRead file source further) :
    (PatternAtom.aliased text atom).IsRead file source (further + 1) := by
  rintro words later ⟨gap, _, rfl, sign, own, rfl, kind, derives⟩ follows
  refine Parses.ahead rfl (Parses.start fun start => ?_)
  refine (parses_nameAt (by decide) text gap).bind fun name part => ?_
  refine Parses.whenAccepted (by decide) kind ?_
  refine (parses_nested (read own later derives follows)).bind fun inner matched => ?_
  exact Parses.spanFrom fun span => Parses.pure ⟨name, inner, span, rfl, part, matched⟩

theorem isRead_irrefutable {atom : PatternAtom} (read : atom.IsRead file source further) :
    (PatternAtom.irrefutable atom).IsRead file source (further + 1) := by
  rintro words later ⟨sign, own, rfl, kind, derives⟩ follows
  refine Parses.ahead kind (Parses.start fun start => Parses.consume ?_)
  refine (parses_nested (read own later derives follows)).bind fun inner matched => ?_
  exact Parses.spanFrom fun span => Parses.pure ⟨inner, span, rfl, matched⟩

theorem isRead_constructorPattern (name : Dotted) :
    (PatternAtom.constructor name).IsRead file source further := by
  rintro words later ⟨constructor, derives⟩ follows
  have read : Parses file source further (words ++ later) qualifiedIdentifier later
      (name.Matches file source) := name.parses constructor derives follows.loose
  obtain ⟨word, rest, rfl, kind⟩ := name.head constructor derives
  refine Parses.ahead kind ?_
  exact read.bind fun found matched => Parses.pure ⟨found, rfl, matched⟩

theorem isRead_literalPattern (text : List Char) :
    (PatternAtom.literal token text).IsRead file source further := by
  intro words later literal follows
  have read : Parses file source further (words ++ later) Grammar.literal later
      (MatchesLiteral file source token text) := parses_literalPattern literal
  obtain ⟨known, gap, rfl⟩ := literal
  have ahead : aheadOf ([⟨token, text, gap⟩] ++ later) = token := rfl
  refine Parses.ahead ahead ?_
  generalize token = token at known read ⊢
  cases token <;> first | (cases known; done) | exact read

theorem isRead_wildcard : PatternAtom.wildcard.IsRead file source further := by
  rintro words later ⟨word, _, rfl, kind, rfl⟩ follows
  refine Parses.ahead kind (Parses.start fun span => Parses.consume (Parses.pure ⟨span, rfl⟩))

theorem isRead_unitPattern : PatternAtom.unit.IsRead file source further := by
  intro words later derives follows
  obtain ⟨first, content, last, split, opens, closes, rfl⟩ := derives.split later
  rw [split]
  refine Parses.ahead opens (Parses.start fun start => Parses.consume ?_)
  exact Parses.whenAccepted (by decide) closes
    (Parses.spanFrom fun span => Parses.pure ⟨span, rfl⟩)

theorem aheadOf_commas {content : List Word} {count : Nat}
    (commas : content.map Word.token = List.replicate (count + 1) .comma) (later : List Word) :
    aheadOf (content ++ later) = .comma := by
  obtain ⟨comma, rest, rfl, kind, -⟩ := List.map_eq_cons_iff.1 commas
  exact kind

theorem parses_commas {content : List Word} {last : Word} {count : Nat}
    (commas : content.map Word.token = List.replicate (count + 1) .comma)
    (closes : last.token = .closeParen) (start : Span) :
    Parses file source room (content ++ last :: later) (tupleConstructor start) later
      fun expr => ∃ span, expr = .identifier (.special span) := by
  have all : ∀ word ∈ content, word.token = .comma := by
    intro word member
    have among := List.mem_map_of_mem (f := Word.token) member
    rw [commas] at among
    exact List.eq_of_mem_replicate among
  refine (parses_skipAll_run all (by decide) (by simp [aheadOf, closes])).bind fun _ _ => ?_
  refine Parses.decided (parses_expectOrSkipTo (by decide) closes) ?_
  exact Parses.spanFrom fun span => Parses.pure ⟨span, rfl⟩

theorem isRead_tupleConstructorPattern (count : Nat) :
    (PatternAtom.tupleConstructor count).IsRead file source further := by
  intro words later derives follows
  obtain ⟨first, content, last, split, opens, closes, commas⟩ := derives.split later
  have comma := aheadOf_commas commas (last :: later)
  rw [split]
  refine Parses.ahead opens (Parses.start fun start => Parses.consume ?_)
  refine Parses.unlessAccepted (by decide) (by rw [comma]; decide) (Parses.whenAt comma ?_)
  exact parses_commas commas closes start

theorem isRead_symbolPattern (text : List Char) :
    (PatternAtom.symbol token text).IsRead file source further := by
  rintro words later ⟨symbol, encloses⟩ follows
  obtain ⟨first, content, last, split, opens, closes, gap, rfl⟩ := encloses.split later
  obtain ⟨-, -, -, -, -, paren, comma⟩ := constructorOperator_facts symbol
  rw [split]
  refine Parses.ahead opens (Parses.start fun start => Parses.consume ?_)
  refine Parses.unlessAccepted (by decide) paren (Parses.unlessAt comma ?_)
  have alone : Parses file source further (⟨token, text, gap⟩ :: last :: later)
      constructorThenParen (⟨token, text, gap⟩ :: last :: later) (· = true) := by
    have ahead : aheadOf (⟨token, text, gap⟩ :: last :: later) = token := rfl
    refine Parses.ahead ahead ?_
    rw [if_pos symbol]
    exact parses_secondIs closes.symm
  refine Parses.decided alone ?_
  rw [if_pos rfl]
  refine (parses_constructorSymbol symbol gap).bind fun name matched => Parses.consume ?_
  exact Parses.pure ⟨name, rfl, matched⟩

/-! Patterns between brackets. -/

/-- What follows the first pattern behind an opening parenthesis. -/
theorem parses_openPattern {form : PatternForm} {first : Word} {content behind : List Word}
    {holds : Expr → Prop} (read : form.IsRead file source further)
    (opens : first.token = .openParen) (derives : form.Derives content)
    (ends : endsPattern (aheadOf behind) = true)
    (next : ∀ start expr, form.Matches file source expr → Parses file source further behind
      (Grammar.enclosed (level further).pattern start expr) later holds) :
    Parses file source further (first :: (content ++ behind)) (patternAtom (level further)) later
      holds := by
  refine Parses.ahead opens (Parses.start fun start => Parses.consume ?_)
  refine Parses.unlessAccepted (by decide) (form.ahead_ne derives rfl (by decide)) ?_
  refine Parses.unlessAt (form.ahead_ne derives rfl (by decide)) ?_
  have unsigned : Parses file source further (content ++ behind) constructorThenParen
      (content ++ behind) (· = false) := by
    obtain ⟨word, rest, rfl, starts⟩ := form.head derives
    have ahead : aheadOf (word :: rest ++ behind) = word.token := rfl
    have other : word.token.isConstructorOperator = false := by
      generalize word.token = token at starts
      cases token <;> first | rfl | simp [startsPatternAtom] at starts
    refine Parses.ahead ahead ?_
    rw [if_neg (by simp [other])]
    exact Parses.pure rfl
  refine Parses.decided unsigned ?_
  rw [if_neg Bool.false_ne_true]
  exact (read content behind derives ends).bind fun expr matched => next start expr matched

theorem isRead_parenthesizedPattern {inner : PatternForm} (read : inner.IsRead file source further) :
    (PatternAtom.parenthesized inner).IsRead file source further := by
  intro words later derives follows
  obtain ⟨first, content, last, split, opens, closes, inside⟩ := derives.split later
  rw [split]
  refine parses_openPattern read opens inside (by rw [aheadOf, closes]; rfl) ?_
  intro start expr matched
  refine Parses.unlessAt (by simp [aheadOf, closes]) ?_
  refine Parses.decided (parses_expectOrSkipTo (by decide) closes) ?_
  exact Parses.spanFrom fun span => Parses.pure ⟨expr, span, rfl, matched⟩

/-- By induction on the patterns: each is read behind its comma. -/
theorem parses_laterPatterns {forms : List PatternForm}
    (reads : ∀ form ∈ forms, form.IsRead file source further)
    (derive : PatternForm.LaterDerive forms words) (ends : endsPattern (aheadOf later) = true)
    (other : aheadOf later ≠ .comma) :
    endsPattern (aheadOf (words ++ later)) = true ∧
      Parses file source further (words ++ later) (many (accept .comma) (level further).pattern)
        later (PatternForm.ListMatches file source forms) := by
  induction forms generalizing words with
  | nil =>
    obtain rfl : words = [] := derive
    exact ⟨ends, parses_many_stop (parses_accept_other (by decide) other)⟩
  | cons form others induction =>
    rw [List.forall_mem_cons] at reads
    obtain ⟨_, rest, rfl, ⟨comma, own, rfl, kind, derives⟩, derive⟩ := derive
    obtain ⟨next, parses⟩ := induction reads.2 derive
    rw [List.cons_append, List.cons_append, List.append_assoc]
    refine ⟨by rw [aheadOf, kind]; rfl, ?_⟩
    refine parses_many_step (parses_accept (by decide) kind) (reads.1 own _ derives next) ?_ parses
    simp only [List.length_cons, List.length_append]
    omega

theorem isRead_tuplePattern {first second : PatternForm} {forms : List PatternForm}
    (read : first.IsRead file source further)
    (reads : ∀ form ∈ second :: forms, form.IsRead file source further) :
    (PatternAtom.tuple first second forms).IsRead file source further := by
  intro words later derives follows
  obtain ⟨opening, content, last, split, opens, closes, front, back, rfl, derives, rest⟩ :=
    derives.split later
  have elements : PatternForm.LaterDerive (second :: forms) back := rest
  have closing : endsPattern (aheadOf (last :: later)) = true := by rw [aheadOf, closes]; rfl
  obtain ⟨ends, parses⟩ :=
    parses_laterPatterns reads elements closing (by simp [aheadOf, closes])
  have comma : aheadOf (back ++ last :: later) = .comma := by
    obtain ⟨_, _, rfl, ⟨comma, own, rfl, kind, -⟩, -⟩ := rest
    exact kind
  rw [split, List.append_assoc]
  refine parses_openPattern read opens derives ends ?_
  intro start expr matched
  refine Parses.whenAt comma (parses.bind ?_)
  rintro _ ⟨other, others, rfl, following, further⟩
  exact Parses.decided (parses_expectOrSkipTo (by decide) closes)
    (Parses.spanFrom fun span => Parses.pure ⟨expr, other, others, span, rfl, matched, following,
      further⟩)

theorem isRead_emptyListPattern : PatternAtom.emptyList.IsRead file source further := by
  intro words later derives follows
  obtain ⟨first, content, last, split, opens, closes, rfl⟩ := derives.split later
  rw [split]
  refine Parses.ahead opens (Parses.start fun start => Parses.consume ?_)
  exact Parses.whenAt closes (Parses.decided (parses_expectOrSkipTo (by decide) closes)
    (Parses.spanFrom fun span => Parses.pure ⟨span, rfl⟩))

theorem isRead_listPattern {first : PatternForm} {forms : List PatternForm}
    (read : first.IsRead file source further)
    (reads : ∀ form ∈ forms, form.IsRead file source further) :
    (PatternAtom.list first forms).IsRead file source further := by
  intro words later derives follows
  obtain ⟨opening, content, last, split, opens, closes, front, back, rfl, derives, rest⟩ :=
    derives.split later
  have closing : endsPattern (aheadOf (last :: later)) = true := by rw [aheadOf, closes]; rfl
  obtain ⟨ends, parses⟩ := parses_laterPatterns reads rest closing (by simp [aheadOf, closes])
  have elements : Parses file source further (front ++ (back ++ last :: later))
      (separated .comma (level further).pattern) (last :: later) fun exprs =>
        ∃ one others, exprs = one :: others ∧ first.Matches file source one ∧
          PatternForm.ListMatches file source forms others := by
    refine (read front _ derives ends).bind fun one matched => parses.bind fun others following => ?_
    exact Parses.pure ⟨one, others, rfl, matched, following⟩
  rw [split, List.append_assoc]
  refine Parses.ahead opens (Parses.start fun start => Parses.consume ?_)
  refine Parses.unlessAt (first.ahead_ne derives rfl (by decide)) (elements.bind ?_)
  rintro _ ⟨one, others, rfl, matched, following⟩
  exact Parses.decided (parses_expectOrSkipTo (by decide) closes)
    (Parses.spanFrom fun span => Parses.pure ⟨one, others, span, rfl, matched, following⟩)

/-! Operands and operators. -/

theorem parses_argumentFollows :
    Parses file source room words argumentFollows words (· = argumentLeads words) := by
  refine Parses.ahead rfl ?_
  cases starts : startsPatternAtom (aheadOf words) with
  | true =>
    refine parses_symbolLeads.bind fun found same => Parses.pure ?_
    rw [same, argumentLeads, starts, Bool.true_and]
  | false => exact Parses.pure (by rw [argumentLeads, starts, Bool.false_and])

/-- By induction on the arguments: all are read. -/
theorem parses_patternArguments {atoms : List PatternAtom}
    (reads : ∀ atom ∈ atoms, atom.IsRead file source further)
    (derive : PatternAtom.ListDerives atoms words) (ends : EndsOperand later) :
    Follows (words ++ later) ∧
      Parses file source further (words ++ later)
        (many argumentFollows (patternAtom (level further))) later
        (PatternAtom.ListMatches file source atoms) := by
  induction atoms generalizing words with
  | nil =>
    obtain rfl : words = [] := derive
    have stops := @parses_argumentFollows file source further later
    rw [ends.last] at stops
    exact ⟨ends.follows, parses_many_stop stops⟩
  | cons atom others induction =>
    rw [List.forall_mem_cons] at reads
    obtain ⟨own, rest, rfl, derives, derive⟩ := derive
    obtain ⟨follows, parses⟩ := induction reads.2 derive
    rw [List.append_assoc]
    have goes := @parses_argumentFollows file source further (own ++ (rest ++ later))
    rw [argumentLeads_of_atom derives follows.loose] at goes
    obtain ⟨word, more, split, starts⟩ := atom.head derives
    refine ⟨follows_of_starts (by rw [split]; exact starts), ?_⟩
    refine parses_many_step goes (reads.1 own _ derives follows) ?_ parses
    rw [split]
    simp only [List.cons_append, List.length_cons, List.length_append]
    omega

theorem parses_constructorPattern {atoms : List PatternAtom} {function : Expr} {holds : Expr → Prop}
    (reads : ∀ atom ∈ atoms, atom.IsRead file source further)
    (derive : PatternAtom.ListDerives atoms words) (ends : EndsOperand later) (start : Span)
    (held : holds function) :
    Parses file source further (words ++ later) (constructorPattern (level further) start function)
      later (Applies atoms.isEmpty holds (PatternAtom.ListMatches file source atoms)) := by
  refine (parses_patternArguments reads derive ends).2.bind fun arguments matched => ?_
  cases atoms with
  | nil =>
    obtain rfl : arguments = [] := matched
    exact Parses.pure held
  | cons atom atoms =>
    obtain ⟨first, others, rfl, -⟩ := id matched
    exact Parses.spanFrom fun span => Parses.pure ⟨function, _, span, rfl, held, matched⟩

theorem isRead_negative (text : List Char) :
    (PatternOperand.negative token text).IsRead file source further := by
  rintro words later ⟨kind, sign, own, rfl, minus, literal⟩ ends
  have read : Parses file source further (own ++ later) Grammar.literal later
      (MatchesLiteral file source token text) := parses_literalPattern literal
  have ahead : aheadOf (own ++ later) = token := by
    obtain ⟨-, gap, rfl⟩ := literal
    rfl
  have numeral : Parses file source further (own ++ later) numeral later
      (MatchesLiteral file source token text) := by
    rcases kind with rfl | rfl
    · exact Parses.ahead ahead read
    · exact Parses.ahead ahead read
  refine Parses.start fun start => Parses.ahead minus ?_
  exact Parses.start fun start => Parses.consume (numeral.bind fun content matched =>
    Parses.spanFrom fun span => Parses.pure ⟨content, span, rfl, matched⟩)

/-- A comma behind an opening parenthesis tells a constructor, a pattern tells none. -/
theorem parses_parenthesizedConstructorFollows {first second : Word}
    (plain : second.token.isConstructorOperator = false) :
    Parses file source room (first :: second :: later) parenthesizedConstructorFollows
      (first :: second :: later) (· = decide (second.token = .comma)) := by
  refine Sees.parses fun place tokens marks _ => ?_
  cases marks with
  | @cons _ _ one _ _ _ _ marks =>
  cases marks with
  | @cons _ _ two _ tokens _ _ marks =>
  refine (sees_peek (by decide) (by decide) rfl).bind ?_
  by_cases comma : second.token = .comma
  · rw [if_pos comma, decide_eq_true comma]
    exact Sees.pure true
  · rw [if_neg comma, if_neg (by simp [plain]), decide_eq_false comma]
    exact Sees.pure false

theorem parses_parenthesizedSymbolFollows {first second third : Word}
    (symbol : second.token.isConstructorOperator = true) (closes : third.token = .closeParen) :
    Parses file source room (first :: second :: third :: later) parenthesizedConstructorFollows
      (first :: second :: third :: later) (· = true) := by
  refine Sees.parses fun place tokens marks _ => ?_
  cases marks with
  | @cons _ _ one _ _ _ _ marks =>
  cases marks with
  | @cons _ _ two _ _ _ _ marks =>
  cases marks with
  | @cons _ _ three _ tokens _ _ marks =>
  refine (sees_peek (by decide) (by decide) rfl).bind ?_
  rw [if_neg (constructorOperator_facts symbol).2.2.2.2.2.2, if_pos symbol]
  refine (sees_peek (by decide) (by decide) rfl).bind ?_
  rw [decide_eq_true closes]
  exact Sees.pure true

section Operands

variable {inner : Level} {middle : List Word} {holds : Expr → Prop}

theorem parses_operandAtom (starts : startsPatternAtom (aheadOf words) = true)
    (proper : aheadOf words ≠ .properIdentifier)
    (plain : aheadOf words = .openParen →
      Parses file source room words parenthesizedConstructorFollows words (· = false))
    (read : Parses file source room words (patternAtom inner) later holds) :
    Parses file source room words (operandPattern inner) later holds := by
  refine Parses.start fun start => Parses.ahead rfl ?_
  generalize aheadOf words = token at starts proper plain
  cases token <;>
    first | exact read | exact absurd starts Bool.false_ne_true | exact (proper rfl).elim | skip
  · refine Parses.decided (plain rfl) ?_
    rw [if_neg Bool.false_ne_true]
    exact read

theorem parses_operandConstructor {matched : Expr → Prop} (opens : aheadOf words = .openParen)
    (follows : Parses file source room words parenthesizedConstructorFollows words (· = true))
    (read : Parses file source room words (patternAtom inner) middle matched)
    (arguments : ∀ start value, matched value →
      Parses file source room middle (constructorPattern inner start value) later holds) :
    Parses file source room words (operandPattern inner) later holds := by
  refine Parses.start fun start => Parses.ahead opens (Parses.decided follows ?_)
  rw [if_pos rfl]
  exact read.bind fun value held => arguments start value held

end Operands

/-- Behind an opening parenthesis of an atom that takes no arguments stands neither a comma nor a
constructor symbol. -/
theorem PatternAtom.second {atom : PatternAtom} (derives : atom.Derives words)
    (plain : atom.takesArguments = false) (opens : aheadOf words = .openParen) :
    ∃ first second rest, words = first :: second :: rest ∧
      second.token.isConstructorOperator = false ∧ second.token ≠ .comma := by
  have headed : ∀ {first behind}, first ≠ .openParen → ¬Heads first behind words := by
    rintro first behind other ⟨word, rest, rfl, kind, -⟩
    exact other (kind.symm.trans opens)
  have inside : ∀ {form : PatternForm} {content rest : List Word}, form.Derives content →
      ∃ second behind, content ++ rest = second :: behind ∧
        second.token.isConstructorOperator = false ∧ second.token ≠ .comma := by
    intro form content rest derives
    obtain ⟨word, behind, rfl, starts⟩ := form.head derives
    refine ⟨word, behind ++ rest, rfl, ?_⟩
    generalize word.token = token at starts
    cases token <;> simp [startsPatternAtom] at starts ⊢ <;> rfl
  cases atom with
  | named text =>
    obtain ⟨gap, rfl⟩ := derives
    cases opens
  | aliased text atom =>
    obtain ⟨gap, rest, rfl, -⟩ := derives
    cases opens
  | literal token text =>
    obtain ⟨known, gap, rfl⟩ := derives
    have same : token = .openParen := opens
    rw [same] at known
    cases known
  | unit =>
    obtain ⟨first, _, rfl, -, _, _, rfl, rfl, last, _, rfl, kind, rfl⟩ := derives
    exact ⟨first, last, [], rfl, by rw [kind]; rfl, by rw [kind]; decide⟩
  | parenthesized inner =>
    obtain ⟨first, _, rfl, -, content, rest, rfl, derives, -⟩ := derives
    obtain ⟨second, behind, split, known⟩ := inside derives
    exact ⟨first, second, behind, by rw [split], known⟩
  | tuple one other others =>
    obtain ⟨first, _, rfl, -, _, rest, rfl, ⟨content, more, rfl, derives, -⟩, -⟩ := derives
    obtain ⟨second, behind, split, known⟩ := inside derives
    exact ⟨first, second, behind, by rw [List.append_assoc, split], known⟩
  | constructor | tupleConstructor | symbol => cases plain
  | _ => exact absurd derives (headed (by decide))

theorem isRead_single {atom : PatternAtom} (plain : atom.takesArguments = false)
    (derives : atom.Derives words)
    (read : Parses file source room (words ++ later) (patternAtom (level further)) later
      (atom.Matches file source)) :
    Parses file source room (words ++ later) (operandPattern (level further)) later
      (atom.Matches file source) := by
  obtain ⟨word, rest, rfl, starts⟩ := atom.head derives
  refine parses_operandAtom starts ?_ ?_ read
  · intro proper
    obtain ⟨name, rfl⟩ := atom.exists_constructor derives proper
    cases plain
  · intro opens
    obtain ⟨first, second, behind, split, symbol, comma⟩ := atom.second derives plain opens
    rw [split, List.cons_append, List.cons_append]
    exact (parses_parenthesizedConstructorFollows symbol).mono fun _ same =>
      same.trans (decide_eq_false comma)

theorem isRead_applied {function : PatternAtom} {atoms : List PatternAtom}
    (read : function.IsRead file source further)
    (reads : ∀ atom ∈ atoms, atom.IsRead file source further) :
    (PatternOperand.applied function atoms).IsRead file source further := by
  rintro words later ⟨takes, own, rest, rfl, derives, derive⟩ ends
  obtain ⟨follows, -⟩ := parses_patternArguments reads derive ends
  have head := read own _ derives follows
  have arguments : ∀ start value, function.Matches file source value →
      Parses file source further (rest ++ later) (constructorPattern (level further) start value)
        later ((PatternOperand.applied function atoms).Matches file source) :=
    fun start value matched => parses_constructorPattern reads derive ends start matched
  rw [List.append_assoc]
  by_cases plain : function.takesArguments = false
  · obtain rfl : atoms = [] := by simpa [plain] using takes
    obtain rfl : rest = [] := derive
    exact isRead_single plain derives head
  cases function with
  | constructor name =>
    obtain ⟨constructor, derives⟩ := derives
    have named : Parses file source further (own ++ (rest ++ later)) qualifiedIdentifier
        (rest ++ later) (name.Matches file source) :=
      name.parses constructor derives follows.loose
    obtain ⟨word, others, rfl, kind⟩ := name.head constructor derives
    refine Parses.start fun start => Parses.ahead kind (named.bind fun found matched => ?_)
    exact arguments start _ ⟨found, rfl, matched⟩
  | tupleConstructor count =>
    obtain ⟨first, content, last, split, opens, closes, commas⟩ := derives.split (rest ++ later)
    obtain ⟨comma, others, rfl, kind, -⟩ := List.map_eq_cons_iff.1 commas
    rw [split] at head ⊢
    have tells := @parses_parenthesizedConstructorFollows file source further
      (others ++ last :: (rest ++ later)) first comma (by rw [kind]; rfl)
    exact parses_operandConstructor opens
      (tells.mono fun _ same => same.trans (decide_eq_true kind)) head arguments
  | symbol token text =>
    obtain ⟨symbol, encloses⟩ := derives
    obtain ⟨first, content, last, split, opens, closes, gap, rfl⟩ := encloses.split (rest ++ later)
    rw [split] at head ⊢
    exact parses_operandConstructor opens (parses_parenthesizedSymbolFollows symbol closes) head
      arguments
  | _ => exact absurd rfl plain

/-! Patterns. -/

/-- A pattern takes a nesting level, and so does the one behind its operator. -/
theorem isRead_operandPattern {operand : PatternOperand} (read : operand.IsRead file source further) :
    (PatternForm.operand operand).IsRead file source (further + 1) := by
  intro words later derives ends
  refine parses_nested (Parses.start fun start => ?_)
  refine (read words later derives (endsOperand_of_closer ends)).bind fun left matched => ?_
  exact Parses.decided (parses_no_constructorOperator ends) (Parses.pure matched)

theorem isRead_binary {left : PatternOperand} {right : PatternForm} (operator : PatternOperator)
    (read : left.IsRead file source further) (readRight : right.IsRead file source further) :
    (PatternForm.binary left operator right).IsRead file source (further + 1) := by
  rintro words later ⟨front, _, rfl, derives, between, back, rfl, operates, derivesRight⟩ ends
  have loose : Loose (back ++ later) := (follows_of_form derivesRight).loose
  rw [List.append_assoc, List.append_assoc]
  refine parses_nested (Parses.start fun start => ?_)
  refine (read front _ derives (endsOperand_of_operator operates)).bind fun one matched => ?_
  refine (operator.parses operates loose).bind ?_
  rintro _ ⟨name, rfl, named⟩
  refine (readRight back later derivesRight ends).bind fun other matchedRight => ?_
  exact Parses.spanFrom fun span => Parses.pure ⟨one, name, other, span, rfl, matched, named,
    matchedRight⟩

/-! Every tree is read if there is a further level for everything around its innermost parts, and one
for the tree itself. -/

section Trees

variable (file source)

mutual

theorem PatternAtom.isRead (atom : PatternAtom) {further : Nat} (room : atom.nesting ≤ further) :
    atom.IsRead file source further := by
  cases atom with
  | named text => exact isRead_named text
  | aliased text atom =>
    rw [PatternAtom.nesting] at room
    obtain ⟨further, rfl⟩ := Nat.exists_eq_add_of_le' (Nat.succ_le_of_lt (Nat.zero_lt_of_lt room))
    exact isRead_aliased text (atom.isRead (by omega))
  | constructor name => exact isRead_constructorPattern name
  | literal token text => exact isRead_literalPattern text
  | wildcard => exact isRead_wildcard
  | irrefutable atom =>
    rw [PatternAtom.nesting] at room
    obtain ⟨further, rfl⟩ := Nat.exists_eq_add_of_le' (Nat.succ_le_of_lt (Nat.zero_lt_of_lt room))
    exact isRead_irrefutable (atom.isRead (by omega))
  | unit => exact isRead_unitPattern
  | tupleConstructor count => exact isRead_tupleConstructorPattern count
  | symbol token text => exact isRead_symbolPattern text
  | parenthesized inner =>
    rw [PatternAtom.nesting] at room
    exact isRead_parenthesizedPattern (inner.isRead room)
  | tuple first second later =>
    rw [PatternAtom.nesting] at room
    exact isRead_tuplePattern (first.isRead (by omega))
      (List.forall_mem_cons.2 ⟨second.isRead (by omega), PatternForm.areRead later (by omega)⟩)
  | emptyList => exact isRead_emptyListPattern
  | list first later =>
    rw [PatternAtom.nesting] at room
    exact isRead_listPattern (first.isRead (by omega)) (PatternForm.areRead later (by omega))

theorem PatternAtom.areRead (atoms : List PatternAtom) {further : Nat}
    (room : PatternAtom.listNesting atoms ≤ further) :
    ∀ atom ∈ atoms, atom.IsRead file source further := by
  cases atoms with
  | nil => simp
  | cons atom later =>
    rw [PatternAtom.listNesting] at room
    exact List.forall_mem_cons.2 ⟨atom.isRead (by omega), PatternAtom.areRead later (by omega)⟩

theorem PatternOperand.isRead (operand : PatternOperand) {further : Nat}
    (room : operand.nesting ≤ further) : operand.IsRead file source further := by
  cases operand with
  | negative token text => exact isRead_negative text
  | applied function atoms =>
    rw [PatternOperand.nesting] at room
    exact isRead_applied (function.isRead (by omega)) (PatternAtom.areRead atoms (by omega))

theorem PatternForm.isRead (form : PatternForm) {further : Nat} (room : form.nesting < further) :
    form.IsRead file source further := by
  obtain ⟨further, rfl⟩ := Nat.exists_eq_add_of_le' (Nat.succ_le_of_lt (Nat.zero_lt_of_lt room))
  cases form with
  | operand operand =>
    rw [PatternForm.nesting] at room
    exact isRead_operandPattern (operand.isRead (by omega))
  | binary left operator right =>
    rw [PatternForm.nesting] at room
    exact isRead_binary operator (left.isRead (by omega)) (right.isRead (by omega))

theorem PatternForm.areRead (forms : List PatternForm) {further : Nat}
    (room : PatternForm.listNesting forms < further) :
    ∀ form ∈ forms, form.IsRead file source further := by
  cases forms with
  | nil => simp
  | cons form later =>
    rw [PatternForm.listNesting] at room
    exact List.forall_mem_cons.2 ⟨form.isRead (by omega), PatternForm.areRead later (by omega)⟩

end

end Trees

end Productions

end Offside.Haskell.Core
