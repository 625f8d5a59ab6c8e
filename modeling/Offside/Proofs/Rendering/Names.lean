import Offside.Proofs.Rendering.Rules

/-!
Names and operators as they are read back. Qualifiers are told by the dots that touch both neighbours,
so a written name is read as far as it goes, whatever stands behind it after a blank.
-/

namespace Offside.Haskell.Core

set_option autoImplicit false

open Offside.Lexical Offside.Parse Offside.Haskell.Grammar

def isQualifiable (token : Token) : Bool :=
  token == .identifier || token == .properIdentifier || token.isOperator

/-- A proper identifier with a dot and something to qualify, with no blanks between them. -/
def qualifierLeads : List Word → Bool
  | first :: dot :: last :: _ =>
    first.token == .properIdentifier && dot.token == .dot && isQualifiable last.token &&
      (!dot.gap && !last.gap)
  | _ => false

section Names

variable {file : FileId} {source : List Char} {room : Nat} {words later : List Word}

theorem sees_unqualified {tokens : List (Token × Span)}
    (other : aheadOf words ≠ .properIdentifier) :
    Sees file source room words tokens qualifierFollows false := by
  refine (sees_isAt .properIdentifier).bind ?_
  simpa [other] using Sees.pure false

theorem sees_undotted {first second : Word} {place : Position} {tokens : List (Token × Span)}
    (marks : Marks file source place (first :: second :: later) tokens)
    (other : second.token ≠ .dot) :
    Sees file source room (first :: second :: later) tokens qualifierFollows false := by
  cases marks with
  | @cons _ _ one _ _ _ _ marks =>
  cases marks with
  | @cons _ _ two _ tokens _ _ marks =>
  by_cases proper : first.token = .properIdentifier
  swap
  · exact sees_unqualified proper
  refine (sees_isAt .properIdentifier).bind ?_
  rw [show decide (aheadOf (first :: second :: later) = .properIdentifier) = true by
    simp [aheadOf, proper]]
  refine (sees_peek (by decide) (by decide) rfl).bind ?_
  rw [show (second.token != .dot) = true by simpa using other]
  exact Sees.pure false

/-- With three tokens in sight the adjacency of their spans decides. -/
theorem sees_dotted {first dot last : Word} {place : Position} {tokens : List (Token × Span)}
    (marks : Marks file source place (first :: dot :: last :: later) tokens)
    (proper : first.token = .properIdentifier) (dotted : dot.token = .dot) :
    Sees file source room (first :: dot :: last :: later) tokens qualifierFollows
      (qualifierLeads (first :: dot :: last :: later)) := by
  cases marks with
  | @cons _ _ one _ _ _ _ marks =>
  cases marks with
  | @cons _ _ two _ _ _ near marks =>
  cases marks with
  | @cons _ _ three _ tokens _ nearLast marks =>
  refine (sees_isAt .properIdentifier).bind ?_
  rw [show decide (aheadOf (first :: dot :: last :: later) = .properIdentifier) = true by
    simp [aheadOf, proper]]
  refine (sees_peek (by decide) (by decide) rfl).bind ?_
  rw [show (dot.token != .dot) = false by simp [dotted]]
  refine (sees_peek (by decide) (by decide) rfl).bind ?_
  by_cases named : isQualifiable last.token = true
  swap
  · have none : qualifierLeads (first :: dot :: last :: later) = false := by
      simp [qualifierLeads, named]
    rw [if_neg (by simpa [isQualifiable, or_assoc] using named), none]
    exact Sees.pure false
  rw [if_pos (by simpa [isQualifiable, or_assoc] using named)]
  refine sees_aheadSpan.bind ?_
  refine (sees_peekSpan (by decide) (by decide) rfl).bind ?_
  refine (sees_peekSpan (by decide) (by decide) rfl).bind ?_
  have touching : decide (one.stop = two.start ∧ two.stop = three.start) =
      qualifierLeads (first :: dot :: last :: later) := by
    rw [Bool.eq_iff_iff, decide_eq_true_eq, eq_comm (a := one.stop), near, eq_comm (a := two.stop),
      nearLast]
    simp [qualifierLeads, proper, dotted, named]
  rw [← touching]
  exact Sees.pure _

theorem parses_qualifierFollows :
    Parses file source room words qualifierFollows words (· = qualifierLeads words) := by
  refine Sees.parses fun place tokens marks closed => ?_
  by_cases proper : aheadOf words = .properIdentifier
  swap
  · have none : qualifierLeads words = false := by
      unfold qualifierLeads
      split
      · rename_i first dot last later
        have other : first.token ≠ .properIdentifier := proper
        simp [other]
      · rfl
    rw [none]
    exact sees_unqualified proper
  rcases words with - | ⟨first, - | ⟨second, later⟩⟩
  · cases proper
  · have brace : first.token = .closeBrace := closed first rfl
    cases brace.symm.trans proper
  by_cases dotted : second.token = .dot
  swap
  · have none : qualifierLeads (first :: second :: later) = false := by
      unfold qualifierLeads
      split
      · rename_i found
        obtain ⟨rfl, rfl, rfl⟩ := found
        simp [dotted]
      · rfl
    rw [none]
    exact sees_undotted marks dotted
  rcases later with - | ⟨last, later⟩
  · have brace : second.token = .closeBrace := closed second rfl
    cases brace.symm.trans dotted
  · exact sees_dotted marks proper dotted

def Loose (words : List Word) : Prop := ∀ word ∈ words.head?, word.token = .dot → word.gap = true

theorem qualifierLeads_loose (loose : Loose later) (last : Word) :
    qualifierLeads (last :: later) = false := by
  unfold qualifierLeads
  split
  · rename_i first dot third rest found
    obtain ⟨rfl, rfl⟩ := List.cons.inj found
    by_cases dotted : dot.token = .dot
    · simp [loose dot rfl dotted]
    · simp [dotted]
  · rfl

theorem wordToken_qualifiable (text : List Char) : isQualifiable (wordToken text) = true := by
  rw [wordToken]
  split <;> rfl

/-- The words of a name: qualifiers, each with a dot that touches both its neighbours, and the last
part. The flag says whether a blank stands before the first. -/
inductive IsDotted (token : Token) (text : List Char) : Bool → List (List Char) → List Word → Prop
  | last (gap : Bool) : IsDotted token text gap [] [⟨token, text, gap⟩]
  | qualified {qualifiers : List (List Char)} {words : List Word} (gap : Bool)
      (qualifier dot : List Char) (later : IsDotted token text false qualifiers words) :
      IsDotted token text gap (qualifier :: qualifiers)
        (⟨.properIdentifier, qualifier, gap⟩ :: ⟨.dot, dot, false⟩ :: words)

/-- The first word of a name has the blank before it that the name has. -/
theorem IsDotted.head {token : Token} {text : List Char} {gap : Bool}
    {qualifiers : List (List Char)} {name : List Word}
    (dotted : IsDotted token text gap qualifiers name) :
    ∃ word rest, name = word :: rest ∧ word.gap = gap ∧
      (word.token = token ∨ word.token = .properIdentifier) := by
  cases dotted with
  | last => exact ⟨_, _, rfl, rfl, .inl rfl⟩
  | qualified => exact ⟨_, _, rfl, rfl, .inr rfl⟩

theorem isDotted_qualifiedWords (token : Token) (text : List Char)
    (qualifiers : List (Spelling isConstructorText)) (gap : Bool) :
    IsDotted token text gap (qualifiers.map Subtype.val)
      (qualifiedWords token text qualifiers gap) := by
  induction qualifiers generalizing gap with
  | nil => exact .last gap
  | cons qualifier others induction => exact .qualified gap _ _ (induction false)

/-- A name of one part. -/
def IsPart (file : FileId) (source : List Char) (text : List Char) (name : Name) : Prop :=
  ∃ span : Span, name = .simple span ∧ span.Shows file source text

theorem parses_qualifier {word dot : Word} :
    Parses file source room (word :: dot :: later) Grammar.qualifier later
      (IsPart file source word.text) :=
  Parses.aheadSpan fun span shows =>
    Parses.consume (Parses.consume (Parses.pure ⟨span, rfl, shows⟩))

/-- By induction on the qualifiers: they are read up to the last part of the name. -/
theorem IsDotted.parses_segments {token : Token} {text : List Char} {gap : Bool}
    {qualifiers : List (List Char)} {name : List Word}
    (dotted : IsDotted token text gap qualifiers name) (qualifiable : isQualifiable token = true)
    (loose : Loose later) :
    Parses file source room (name ++ later) (many qualifierFollows qualifier)
      (⟨token, text, qualifiers.isEmpty && gap⟩ :: later)
      (List.Forall₂ (IsPart file source) qualifiers) := by
  induction dotted with
  | last gap =>
    have stops := @parses_qualifierFollows file source room (⟨token, text, gap⟩ :: later)
    rw [qualifierLeads_loose loose] at stops
    exact (parses_many_stop stops).mono fun _ none => none ▸ .nil
  | @qualified qualifiers words gap qualifier dot behind induction =>
    obtain ⟨word, rest, rfl, touches, kind⟩ := behind.head
    have named : isQualifiable word.token = true := by
      rcases kind with same | same
      · rw [same, qualifiable]
      · rw [same]
        rfl
    have goes := @parses_qualifierFollows file source room
      (⟨.properIdentifier, qualifier, gap⟩ :: ⟨.dot, dot, false⟩ :: (word :: rest ++ later))
    have leads : qualifierLeads (⟨.properIdentifier, qualifier, gap⟩ :: ⟨.dot, dot, false⟩ ::
        (word :: rest ++ later)) = true := by
      simp [qualifierLeads, named, touches]
    rw [leads] at goes
    rw [Bool.and_false] at induction
    refine (parses_many_step goes parses_qualifier ?_ induction).mono ?_
    · simp only [List.cons_append, List.length_append, List.length_cons]
      omega
    · rintro _ ⟨segment, segments, rfl, first, further⟩
      exact .cons first further

def IsNamed (file : FileId) (source : List Char) (qualifiers : List (List Char))
    (last : Name → Prop) (name : Name) : Prop :=
  match qualifiers with
  | [] => last name
  | _ :: _ => ∃ segments final span, name = .qualified (segments ++ [final]) span ∧
      List.Forall₂ (IsPart file source) qualifiers segments ∧ last final

theorem qualifies_of_isNamed {qualifiers : List (Spelling isConstructorText)} {last : Name → Prop}
    {name : Name} (named : IsNamed file source (qualifiers.map Subtype.val) last name) :
    Qualifies (Span.Shows file source) qualifiers last name := by
  cases qualifiers with
  | nil => exact named
  | cons qualifier others =>
    obtain ⟨segments, final, span, whole, stand, held⟩ := named
    exact ⟨segments, final, span, whole, List.forall₂_map_left_iff.1 stand, held⟩

theorem ofSegments_isNamed {qualifiers : List (List Char)} {segments : List Name}
    {name : Name} {holds : Name → Prop}
    (stand : List.Forall₂ (IsPart file source) qualifiers segments)
    (inFile : name.span.file = file) (held : holds name) :
    ∃ whole, Name.ofSegments (segments ++ [name]) = .ok whole ∧
      IsNamed file source qualifiers holds whole := by
  cases stand with
  | nil => exact ⟨name, rfl, held⟩
  | @cons qualifier segment _ others first later =>
    obtain ⟨span, rfl, shows⟩ := id first
    obtain ⟨second, rest, split⟩ : ∃ second rest, others ++ [name] = second :: rest := by
      cases others with
      | nil => exact ⟨name, [], rfl⟩
      | cons second others => exact ⟨second, others ++ [name], rfl⟩
    have last : (second :: rest).getLast (List.cons_ne_nil _ _) = name := by
      simp only [← split, List.getLast_append_singleton]
    have joined : span.join name.span = .ok (span.through name.span) := by
      rw [Span.join, if_pos (shows.file.trans inFile.symm)]
    refine ⟨.qualified (.simple span :: others ++ [name]) (span.through name.span), ?_,
      .simple span :: others, name, _, rfl, .cons first later, held⟩
    rw [List.cons_append, split, Name.ofSegments, last]
    exact congrArg (· >>= _) joined

theorem IsDotted.parses_qualifiedBy {token : Token} {text : List Char} {gap : Bool}
    {qualifiers : List (List Char)} {name : List Word} {last : Parse Name} {holds : Name → Prop}
    (dotted : IsDotted token text gap qualifiers name) (qualifiable : isQualifiable token = true)
    (loose : Loose later)
    (reads : ∀ gap, Parses file source room (⟨token, text, gap⟩ :: later) last later holds)
    (inFile : ∀ name, holds name → name.span.file = file) :
    Parses file source room (name ++ later) (qualifiedBy last) later
      (IsNamed file source qualifiers holds) := by
  refine (dotted.parses_segments qualifiable loose).bind fun segments stand => ?_
  refine (reads _).bind fun name held => ?_
  obtain ⟨whole, made, named⟩ := ofSegments_isNamed stand (inFile name held) held
  rw [ofSegments, made]
  exact Parses.pure named

theorem parses_nameAt {token : Token} (inner : token ≠ .endOfInput) (text : List Char) (gap : Bool) :
    Parses file source room (⟨token, text, gap⟩ :: later) (nameAt token) later
      (IsPart file source text) := by
  refine Parses.aheadSpan fun span shows => ?_
  exact Parses.decided (parses_expect inner rfl) (Parses.pure ⟨span, rfl, shows⟩)

theorem parses_eitherIdentifier (text : List Char) (gap : Bool) :
    Parses file source room (⟨wordToken text, text, gap⟩ :: later) eitherIdentifier later
      (IsPart file source text) := by
  rw [wordToken]
  split
  · exact Parses.whenAt rfl (parses_nameAt (by decide) text gap)
  · exact Parses.unlessAt (by simp [aheadOf]) (parses_nameAt (by decide) text gap)

theorem IsPart.inFile {text : List Char} {name : Name} (part : IsPart file source text name) :
    name.span.file = file := by
  obtain ⟨span, rfl, shows⟩ := part
  exact shows.file

theorem Identifier.parses (identifier : Identifier) (gap : Bool) (loose : Loose later) :
    Parses file source room (identifier.words gap ++ later) qualifiedIdentifier later
      (identifier.Matches (Span.Shows file source)) :=
  ((isDotted_qualifiedWords _ _ _ gap).parses_qualifiedBy (wordToken_qualifiable _) loose
    (fun gap => parses_eitherIdentifier _ gap) fun _ => IsPart.inFile).mono
      fun _ => qualifies_of_isNamed

def IsSymbol (file : FileId) (source : List Char) (text : List Char) (name : Name) : Prop :=
  ∃ span : Span, span.Shows file source text ∧
    name = if leads (· == ':') text then .special span else .operator span

theorem IsSymbol.inFile {text : List Char} {name : Name} (symbol : IsSymbol file source text name) :
    name.span.file = file := by
  obtain ⟨span, shows, rfl⟩ := symbol
  split <;> exact shows.file

theorem parses_symbol {token : Token} {text : List Char} (operator : IsOperator token text)
    (gap : Bool) :
    Parses file source room (⟨token, text, gap⟩ :: later) Grammar.symbol later
      (IsSymbol file source text) := by
  have ahead : aheadOf (⟨token, text, gap⟩ :: later) = token := rfl
  refine Parses.ahead ahead ?_
  have kind := operator.kind
  by_cases constructor : token.isConstructorOperator = true
  · rw [if_pos constructor]
    refine Parses.aheadSpan fun span shows => Parses.ahead ahead ?_
    rw [if_pos constructor]
    exact Parses.consume (Parses.pure ⟨span, shows, by rw [← kind, if_pos constructor]⟩)
  · have named : token.isVariableOperator = true := by
      simpa [Token.isOperator, constructor] using operator.operator
    rw [if_neg constructor]
    refine Parses.aheadSpan fun span shows => Parses.ahead ahead ?_
    rw [if_pos named]
    exact Parses.consume (Parses.pure ⟨span, shows, by rw [← kind, if_neg constructor]⟩)

theorem isQualifiable_operator {token : Token} {text : List Char}
    (operator : IsOperator token text) : isQualifiable token = true := by
  rw [isQualifiable, operator.operator, Bool.or_true]

/-! A name met where an operand may stand. -/

theorem Identifier.parses_term (identifier : Identifier) (gap : Bool) (loose : Loose later) :
    Parses file source room (identifier.words gap ++ later) qualifiedTerm later fun term =>
      ∃ name, term = .operand name ∧ identifier.Matches (Span.Shows file source) name := by
  refine ((isDotted_qualifiedWords _ _ _ gap).parses_segments (wordToken_qualifiable _)
    loose).bind fun segments stand => ?_
  refine Parses.ahead rfl ?_
  have word : (wordToken identifier.last.val).isOperator = false := by
    rw [wordToken]
    split <;> rfl
  rw [if_neg (by simp [aheadOf, word])]
  refine (parses_eitherIdentifier _ _).bind fun name part => ?_
  obtain ⟨whole, made, named⟩ := ofSegments_isNamed stand part.inFile part
  rw [ofSegments, made]
  exact Parses.pure ⟨whole, rfl, qualifies_of_isNamed named⟩

theorem Operator.parses_term (operator : Operator) (gap : Bool) (loose : Loose later) :
    Parses file source room (operator.words gap ++ later) qualifiedTerm later fun term =>
      ∃ name, term = .operator name ∧ operator.Matches (Span.Shows file source) name := by
  have known := symbolToken_isOperator operator.symbol.property
  refine ((isDotted_qualifiedWords _ _ _ gap).parses_segments (isQualifiable_operator known)
    loose).bind fun segments stand => ?_
  have ahead : ∀ gap, aheadOf (⟨symbolToken operator.symbol.val, operator.symbol.val, gap⟩ :: later) =
      symbolToken operator.symbol.val := fun _ => rfl
  refine Parses.ahead (ahead _) ?_
  rw [if_pos known.operator]
  refine (parses_symbol known _).bind fun name symbol => ?_
  obtain ⟨whole, made, named⟩ := ofSegments_isNamed stand symbol.inFile symbol
  rw [ofSegments, made]
  exact Parses.pure ⟨whole, rfl, qualifies_of_isNamed named⟩

theorem Operator.ahead_qualified (operator : Operator) (qualified : operator.qualifiers ≠ [])
    (gap : Bool) (later : List Word) : aheadOf (operator.words gap ++ later) = .properIdentifier := by
  obtain ⟨qualifier, others, split⟩ := List.exists_cons_of_ne_nil qualified
  rw [Operator.words, split]
  rfl

/-! Operators between operands. -/

theorem enclosed_append (opening closing : Token) (gap : Bool) (content later : List Word) :
    enclosed opening closing gap content ++ later =
      .fixed opening gap :: (content ++ .fixed closing false :: later) := by
  simp [enclosed]

theorem parses_quotedOperator (name : Identifier) (gap : Bool) :
    Parses file source room (enclosed .backtick .backtick gap (name.words false) ++ later)
      quotedOperator later (name.Matches (Span.Shows file source)) := by
  have closing : Loose (.fixed .backtick false :: later) := by
    intro word member dot
    cases member
    cases dot
  rw [enclosed_append]
  refine Parses.consume ?_
  refine (name.parses false closing).bind fun found matched => ?_
  exact Parses.decided (parses_expectOrSkipTo (by decide) rfl) (Parses.pure matched)

def Infix.isQualified : Infix → Bool
  | .symbol operator => !operator.qualifiers.isEmpty
  | .quoted _ => false

theorem parses_qualifiedSymbolFollows {isKind : Token → Bool} (none : qualifierLeads words = false) :
    Parses file source room words (qualifiedSymbolFollows isKind) words (· = false) := by
  have asked := @parses_qualifierFollows file source room words
  rw [none] at asked
  exact Parses.decided asked (Parses.pure rfl)

theorem Infix.parses (operator : Infix) (plain : operator.isQualified = false) (gap : Bool) :
    Parses file source room (operator.words gap ++ later) operator? later fun found =>
      ∃ name, found = some name ∧ operator.Matches (Span.Shows file source) name := by
  cases operator with
  | symbol operator =>
    obtain ⟨qualifiers, symbol, apart⟩ := operator
    obtain rfl : qualifiers = [] := by simpa [Infix.isQualified] using plain
    have known := symbolToken_isOperator symbol.property
    have ahead : aheadOf (⟨symbolToken symbol.val, symbol.val, gap⟩ :: later) =
        symbolToken symbol.val := rfl
    refine Parses.ahead ahead ?_
    rw [if_pos known.operator]
    exact (parses_symbol known gap).bind fun name found => Parses.pure ⟨name, rfl, found⟩
  | quoted name =>
    have ahead : aheadOf ((Infix.quoted name).words gap ++ later) = .backtick := rfl
    refine Parses.ahead ahead ?_
    rw [if_neg (by decide)]
    have none : qualifierLeads ((Infix.quoted name).words gap ++ later) = false := by
      unfold qualifierLeads
      split
      · rename_i found
        obtain ⟨rfl, -⟩ := List.cons.inj found
        rfl
      · rfl
    refine Parses.decided (parses_qualifiedSymbolFollows none) ?_
    rw [if_neg Bool.false_ne_true, if_pos rfl]
    exact (parses_quotedOperator name gap).bind fun name found => Parses.pure ⟨name, rfl, found⟩

theorem parses_no_operator (operator : (aheadOf words).isOperator = false)
    (proper : aheadOf words ≠ .properIdentifier) (backtick : aheadOf words ≠ .backtick) :
    Parses file source room words operator? words (· = none) := by
  refine Parses.ahead rfl ?_
  have none : qualifierLeads words = false := by
    unfold qualifierLeads
    split
    · rename_i first dot last later
      have other : first.token ≠ .properIdentifier := proper
      simp [other]
    · rfl
  rw [if_neg (by simp [operator])]
  refine Parses.decided (parses_qualifiedSymbolFollows none) ?_
  rw [if_neg Bool.false_ne_true, if_neg backtick]
  exact Parses.pure rfl

end Names

end Offside.Haskell.Core
